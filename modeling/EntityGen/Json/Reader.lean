import EntityGen.Text.Basic

namespace EntityGen.Json

open Text.Utf8 (Bytes)

inductive Fault
  /-- The text ends too early. -/
  | ended
  /-- The text is no JSON. -/
  | malformed
  /-- The text is JSON so far, but of another shape. -/
  | mismatched
  deriving DecidableEq

def Fault.message : Fault → String
  | .ended => "the text ends too early"
  | .malformed => "the text is not well-formed"
  | .mismatched => "the text has another shape"

structure Read (α : Type) (s : Bytes) where
  value : α
  rest : Bytes
  shorter : rest.length < s.length

/-- A reader leaves strictly less than it was given, or names the first fault it met. -/
abbrev Reader (α : Type) := (s : Bytes) → Except Fault (Read α s)

variable {α β : Type} {s t : Bytes}

def Read.map (f : α → β) (r : Read α s) : Read β s := ⟨f r.value, r.rest, r.shorter⟩

def Read.within (r : Read α t) (h : t.length ≤ s.length) : Read α s :=
  ⟨r.value, r.rest, Nat.lt_of_lt_of_le r.shorter h⟩

def Reader.ofStep (f : Bytes → Except Fault (α × Bytes))
    (h : ∀ {s a r}, f s = .ok (a, r) → r.length < s.length) : Reader α := fun s =>
  match e : f s with
  | .ok (a, r) => .ok ⟨a, r, h e⟩
  | .error x => .error x

def Reader.map (f : α → β) (r : Reader α) : Reader β := fun s => (r s).map (Read.map f)

def isSpace (b : UInt8) : Bool := b == 0x20 || b == 0x9 || b == 0xA || b == 0xD

def skipSpace (s : Bytes) : Bytes := s.dropWhile isSpace

theorem length_dropWhile_le (p : UInt8 → Bool) (s : Bytes) : (s.dropWhile p).length ≤ s.length :=
  (List.dropWhile_sublist p).length_le

theorem length_skipSpace_le (s : Bytes) : (skipSpace s).length ≤ s.length :=
  length_dropWhile_le isSpace s

def spaced (r : (b : UInt8) → (t : Bytes) → Except Fault (Read α (b :: t))) : Reader α := fun s =>
  match h : skipSpace s with
  | [] => .error .ended
  | b :: t => (r b t).map (·.within (h ▸ length_skipSpace_le s))

def past (b : UInt8) (r : Reader α) (t : Bytes) : Except Fault (Read α (b :: t)) :=
  (r t).map (·.within (Nat.le_succ _))

def wordStep : Bytes → Bytes → Except Fault Bytes
  | [], s => .ok s
  | _ :: _, [] => .error .ended
  | c :: w, b :: s => if b = c then wordStep w s else .error .malformed

theorem wordStep_length {w s r : Bytes} (h : wordStep w s = .ok r) : r.length + w.length = s.length := by
  fun_induction wordStep w s with
  | case1 s => simp_all
  | case2 => simp at h
  | case3 c w s ih => simp_all; have := ih; omega
  | case4 => simp at h

/-- The octets `c` and `w`, standing for `v`. -/
def word (c : UInt8) (w : Bytes) (v : α) : Reader α :=
  Reader.ofStep (fun s => (wordStep (c :: w) s).map (v, ·)) (by
    intro s a r h
    cases e : wordStep (c :: w) s with
    | error => simp [e, Except.map] at h
    | ok x =>
      have := wordStep_length e
      simp only [e, Except.map, Except.ok.injEq, Prod.mk.injEq] at h
      simp only [List.length_cons] at this
      rw [← h.2]; omega)

inductive Turn (s : Bytes)
  | close (rest : Bytes) (shorter : rest.length < s.length)
  | item (rest : Bytes) (le : rest.length ≤ s.length)

def comma : UInt8 := 0x2C
def colon : UInt8 := 0x3A
def quote : UInt8 := 0x22
def closeList : UInt8 := 0x5D
def closeRecord : UInt8 := 0x7D

/-- Items are parted by commas; none may stand before `close`. -/
def turn (close : UInt8) (first : Bool) (s : Bytes) : Except Fault (Turn s) :=
  have hs := length_skipSpace_le s
  match h : skipSpace s with
  | [] => .error .ended
  | b :: t =>
    have ht : t.length < s.length := by rw [h] at hs; exact hs
    if b = close then .ok (.close t ht)
    else if first then .ok (.item (b :: t) ht)
    else if b = comma then
      have hu := length_skipSpace_le t
      match h : skipSpace t with
      | [] => .error .ended
      | c :: u =>
        if c = close then .error .malformed
        else .ok (.item (c :: u) (by rw [h] at hu; omega))
    else .error .malformed

def itemsFrom (item : Reader α) (first : Bool) : Reader (List α) := fun s => do
  match ← turn closeList first s with
  | .close rest h => return ⟨[], rest, h⟩
  | .item rest h =>
    let a ← item rest
    have ha := a.shorter
    let as ← itemsFrom item false a.rest
    have := as.shorter
    return ⟨a.value :: as.value, as.rest, by omega⟩
termination_by s => s.length

def afterColon (r : Reader α) : Reader α :=
  spaced fun b t => if b = colon then past b r t else .error .malformed

/-- Reads members into `acc`. What a key asks for is settled before its colon is read. -/
def membersFrom (key : Reader String) (enter : α → String → Except Fault (Reader α)) (first : Bool)
    (acc : α) : Reader α := fun s => do
  match ← turn closeRecord first s with
  | .close rest h => return ⟨acc, rest, h⟩
  | .item rest h =>
    let k ← key rest
    have hk := k.shorter
    let r ← enter acc k.value
    let a ← afterColon r k.rest
    have ha := a.shorter
    let b ← membersFrom key enter false a.value a.rest
    have := b.shorter
    return ⟨b.value, b.rest, by omega⟩
termination_by s => s.length

end EntityGen.Json
