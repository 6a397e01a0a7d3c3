import EntityGen.Json.Text
import EntityGen.Json.Number

namespace EntityGen.Json

open Text.Utf8 (Bytes)

variable {α : Type}

/-- A value. What is in a list or a record is read and not kept. -/
inductive Value
  | null
  | bool (b : Bool)
  | number (n : Number)
  | text (s : String)
  | compound
  deriving DecidableEq

inductive Head
  | null
  | true
  | false
  | number
  | text
  | list
  | record
  | none
  deriving DecidableEq

def head (b : UInt8) : Head :=
  if b = 0x6E then .null
  else if b = 0x74 then .true
  else if b = 0x66 then .false
  else if b = 0x2D ∨ isDigit b then .number
  else if b = quote then .text
  else if b = 0x5B then .list
  else if b = 0x7B then .record
  else .none

def nullWord (v : α) : Reader α := word 0x6E [0x75, 0x6C, 0x6C] v
def trueWord (v : α) : Reader α := word 0x74 [0x72, 0x75, 0x65] v
def falseWord (v : α) : Reader α := word 0x66 [0x61, 0x6C, 0x73, 0x65] v

def simple (h : Head) (b : UInt8) (t : Bytes) : Except Fault (Read Value (b :: t)) :=
  match h with
  | .null => nullWord .null (b :: t)
  | .true => trueWord (.bool true) (b :: t)
  | .false => falseWord (.bool false) (b :: t)
  | .number => number.map .number (b :: t)
  | .text => past b (text.map .text) t
  | .list | .record => .error .mismatched
  | .none => .error .malformed

/-- What is wrong with a value of another shape. If it is neither list nor record, it is read
to its end first. -/
def mismatch (b : UInt8) (t : Bytes) : Fault :=
  match simple (head b) b t with
  | .ok _ => .mismatched
  | .error f => f

def textValue : Reader String :=
  spaced fun b t => if head b = .text then past b text t else .error (mismatch b t)

def optionalText : Reader (Option String) :=
  spaced fun b t =>
    match head b with
    | .null => nullWord none (b :: t)
    | .text => past b (text.map some) t
    | _ => .error (mismatch b t)

def listOf (item : Reader α) : Reader (List α) :=
  spaced fun b t =>
    if head b = .list then past b (itemsFrom item true) t else .error (mismatch b t)

def key : Reader String
  | [] => .error .ended
  | b :: t => if b = quote then past b text t else .error .malformed

/-- A value of any shape. `inner` reads what is in a list or a record; there is none where no more
may be opened. -/
def valueWith (inner : Option (Reader Value)) : Reader Value :=
  spaced fun b t =>
    match head b, inner with
    | .list, some r => past b ((itemsFrom r true).map fun _ => .compound) t
    | .record, some r => past b (membersFrom key (fun a _ => .ok (r.map fun _ => a)) true .compound) t
    | .list, none | .record, none => .error .malformed
    | h, _ => simple h b t

/-- A value with at most `depth` lists and records inside each other. -/
def value : Nat → Reader Value
  | 0 => valueWith none
  | depth + 1 => valueWith (some (value depth))

inductive Frame
  | list
  | record
  deriving DecidableEq

def Frame.close : Frame → UInt8
  | .list => closeList
  | .record => closeRecord

inductive Await
  | value
  /-- In brackets just opened. -/
  | first (f : Frame)
  /-- After a comma. -/
  | item (f : Frame)
  | colon
  /-- After a value. -/
  | comma (f : Frame)

/-- What one token does: it ends the value it is in, or opens brackets, or closes them, or changes
what is awaited. -/
inductive Move
  | done
  | opens (f : Frame)
  | closes
  | on (a : Await)

/-- A value's first token. Numbers have no range here, and one that is cut short is malformed. -/
def passValue (b : UInt8) (t : Bytes) : Except Fault (Read Move (b :: t)) :=
  match head b with
  | .null => nullWord .done (b :: t)
  | .true => trueWord .done (b :: t)
  | .false => falseWord .done (b :: t)
  | .number => ((numeral .malformed).map fun _ => Move.done) (b :: t)
  | .text => past b (passText.map fun _ => .done) t
  | .list => .ok ⟨.opens .list, t, Nat.lt_succ_self _⟩
  | .record => .ok ⟨.opens .record, t, Nat.lt_succ_self _⟩
  | .none => .error .malformed

def passItem (f : Frame) (b : UInt8) (t : Bytes) : Except Fault (Read Move (b :: t)) :=
  match f with
  | .list => passValue b t
  | .record =>
    if b = quote then past b (passText.map fun _ => .on .colon) t else .error .malformed

def passToken (a : Await) : Reader Move :=
  spaced fun b t =>
    let stays (m : Move) : Except Fault (Read Move (b :: t)) := .ok ⟨m, t, Nat.lt_succ_self _⟩
    match a with
    | .value => passValue b t
    | .first f => if b = f.close then stays .closes else passItem f b t
    | .item f => passItem f b t
    | .colon => if b = Json.colon then stays (.on .value) else .error .malformed
    | .comma f =>
      if b = Json.comma then stays (.on (.item f))
      else if b = f.close then stays .closes
      else .error .malformed

/-- Passes over a value, however deep. `around` lists the brackets open around it, innermost first;
`s` is what is left of `whole`. -/
def passFrom (whole : Bytes) (a : Await) (around : List Frame) (s : Bytes)
    (le : s.length ≤ whole.length) : Except Fault (Read Unit whole) :=
  match passToken a s with
  | .error f => .error f
  | .ok ⟨m, rest, lt⟩ =>
    have := lt
    have le' : rest.length ≤ whole.length := by omega
    match m, around with
    | .done, [] => .ok ⟨(), rest, by omega⟩
    | .done, f :: fs => passFrom whole (.comma f) (f :: fs) rest le'
    | .opens f, fs => passFrom whole (.first f) (f :: fs) rest le'
    | .closes, _ :: f :: fs => passFrom whole (.comma f) (f :: fs) rest le'
    | .closes, _ => .ok ⟨(), rest, by omega⟩
    | .on a, fs => passFrom whole a fs rest le'
termination_by s.length

def pass : Reader Unit := fun s => passFrom s .value [] s (Nat.le_refl _)

/-- The fields of a record, in order, each with what reads its value into a record. -/
abbrev Fields (α : Type) := List (String × (α → Reader α))

/-- A member's value; the keys that were met are kept, since a known key comes once. -/
def Fields.enter (fs : Fields α) (acc : List String × α) (k : String) :
    Except Fault (Reader (List String × α)) :=
  match fs.lookup k with
  | none => .ok (pass.map fun _ => acc)
  | some r => if k ∈ acc.1 then .error .mismatched else .ok ((r acc.2).map (k :: acc.1, ·))

/-- A record without keys: a list of the fields' values, of which the last may be missing. -/
def Fields.inOrder (first : Bool) (a : α) : (fs : Fields α) → Reader α
  | [] => spaced fun b t =>
    if b = closeList then .ok ⟨a, t, Nat.lt_succ_self _⟩ else .error .malformed
  | (_, r) :: fs => fun s => do
    match ← turn closeList first s with
    | .close rest h => return ⟨a, rest, h⟩
    | .item rest h =>
      let b ← r a rest
      let c ← Fields.inOrder false b.value fs b.rest
      return c.within (Nat.le_trans (Nat.le_of_lt b.shorter) h)

def record (fs : Fields α) (start : α) : Reader α :=
  spaced fun b t =>
    match head b with
    | .record => past b ((membersFrom key fs.enter true ([], start)).map Prod.snd) t
    | .list => past b (fs.inOrder true start) t
    | _ => .error (mismatch b t)

def whole (r : Reader α) (s : Bytes) : Except Fault α := do
  let a ← r s
  if skipSpace a.rest = [] then return a.value else .error .malformed

end EntityGen.Json
