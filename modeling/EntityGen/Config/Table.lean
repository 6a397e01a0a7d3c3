namespace EntityGen.Config.Table

structure Taken (α : Type) (s : List Char) where
  value : α
  rest : List Char
  shorter : rest.length < s.length

variable {α : Type}

def isSpace (c : Char) : Bool := c == ' ' || c == '\t'

def isPlain (c : Char) : Bool := c == '\t' || (0x20 ≤ c.toNat && c.toNat ≠ 0x7F)

def isBare (c : Char) : Bool := c.isAlphanum || c == '_' || c == '-'

def skipSpace (s : List Char) : List Char := s.dropWhile isSpace

theorem length_skipSpace_le (s : List Char) : (skipSpace s).length ≤ s.length :=
  (List.dropWhile_sublist isSpace).length_le

def hexDigit? (c : Char) : Option Nat :=
  if c.isDigit then some (c.toNat - 0x30)
  else if 'A' ≤ c ∧ c ≤ 'F' then some (c.toNat - 0x37)
  else if 'a' ≤ c ∧ c ≤ 'f' then some (c.toNat - 0x57)
  else none

def hexFrom (n : Nat) : (count : Nat) → List Char → Option (Nat × List Char)
  | 0, s => some (n, s)
  | _ + 1, [] => none
  | count + 1, c :: s => (hexDigit? c).bind fun d => hexFrom (n * 16 + d) count s

theorem hexFrom_length {n count m : Nat} {s r : List Char} (h : hexFrom n count s = some (m, r)) :
    r.length + count = s.length := by
  fun_induction hexFrom n count s with
  | case1 => simp_all
  | case2 => simp at h
  | case3 n count c s ih =>
    obtain ⟨d, -, h⟩ := Option.bind_eq_some_iff.1 h
    have := ih d h
    simp only [List.length_cons]; omega

def numbered (count : Nat) (h : 0 < count) (s : List Char) : Option (Taken Char s) :=
  match e : hexFrom 0 count s with
  | some (n, r) =>
    if n.isValidChar then some ⟨.ofNat n, r, by have := hexFrom_length e; omega⟩ else none
  | none => none

def shortEscape? (c : Char) : Option Char :=
  match c with
  | 'b' => some '\x08'
  | 't' => some '\t'
  | 'n' => some '\n'
  | 'f' => some '\x0c'
  | 'r' => some '\r'
  | 'e' => some '\x1b'
  | '"' => some '"'
  | '\\' => some '\\'
  | _ => none

def escape : (s : List Char) → Option (Taken Char s)
  | [] => none
  | c :: s =>
    let count := match c with
      | 'x' => 2
      | 'u' => 4
      | 'U' => 8
      | _ => 0
    if h : 0 < count then
      (numbered count h s).map fun t => ⟨t.value, t.rest, Nat.lt_succ_of_lt t.shorter⟩
    else (shortEscape? c).map fun d => ⟨d, s, Nat.lt_succ_self _⟩

def basic (s : List Char) : Option (List Char × List Char) :=
  match s with
  | [] => none
  | '"' :: t => some ([], t)
  | '\\' :: t => do
    let e ← escape t
    have := e.shorter
    let (v, r) ← basic e.rest
    return (e.value :: v, r)
  | c :: t => if isPlain c then (basic t).map fun (v, r) => (c :: v, r) else none
termination_by s.length

def literal : List Char → Option (List Char × List Char)
  | [] => none
  | '\'' :: t => some ([], t)
  | c :: t => if isPlain c then (literal t).map fun (v, r) => (c :: v, r) else none

/-- Up to two quotes may stand right before the closing three. -/
def closing (quote : Char) : List Char → Option (List Char × List Char)
  | a :: b :: c :: s =>
    if a = quote ∧ b = quote ∧ c = quote then
      let extra := (s.take 2).takeWhile (· = quote)
      some (extra, s.drop extra.length)
    else none
  | _ => none

def multiline? : List Char → Option (List Char × List Char)
  | '\n' :: s => some (['\n'], s)
  | '\r' :: '\n' :: s => some (['\r', '\n'], s)
  | c :: s => if isPlain c then some ([c], s) else none
  | [] => none

theorem multiline_length {s v r : List Char} (h : multiline? s = some (v, r)) :
    r.length < s.length := by
  fun_cases multiline? s <;> grind [multiline?]

def skipLines : List Char → List Char
  | ' ' :: s => skipLines s
  | '\t' :: s => skipLines s
  | '\n' :: s => skipLines s
  | '\r' :: '\n' :: s => skipLines s
  | s => s

theorem length_skipLines_le (s : List Char) : (skipLines s).length ≤ s.length := by
  fun_induction skipLines s <;> grind

/-- After a backslash at the end of a line: the text goes on where there is no white space. -/
def joinedLine? (s : List Char) : Option (List Char) :=
  match skipSpace s with
  | '\n' :: t => some (skipLines t)
  | '\r' :: '\n' :: t => some (skipLines t)
  | _ => none

theorem joinedLine_length {s r : List Char} (h : joinedLine? s = some r) : r.length ≤ s.length := by
  have hs := length_skipSpace_le s
  unfold joinedLine? at h
  split at h
  next t e => have := length_skipLines_le t; grind
  next t e => have := length_skipLines_le t; grind
  next => simp at h

def basicLines (s : List Char) : Option (List Char × List Char) :=
  match closing '"' s with
  | some c => some c
  | none =>
    match s with
    | '\\' :: t =>
      match h : joinedLine? t with
      | some r =>
        have := joinedLine_length h
        basicLines r
      | none => do
        let e ← escape t
        have := e.shorter
        let (v, r) ← basicLines e.rest
        return (e.value :: v, r)
    | s =>
      match h : multiline? s with
      | some (v, r) =>
        have := multiline_length h
        (basicLines r).map fun (w, u) => (v ++ w, u)
      | none => none
termination_by s.length
decreasing_by all_goals simp_wf; grind

def literalLines (s : List Char) : Option (List Char × List Char) :=
  match closing '\'' s with
  | some c => some c
  | none =>
    match h : multiline? s with
    | some (v, r) =>
      have := multiline_length h
      (literalLines r).map fun (w, u) => (v ++ w, u)
    | none => none
termination_by s.length

def opened : List Char → List Char
  | '\n' :: s => s
  | '\r' :: '\n' :: s => s
  | s => s

def value : List Char → Option (List Char × List Char)
  | '"' :: '"' :: '"' :: s => basicLines (opened s)
  | '"' :: s => basic s
  | '\'' :: '\'' :: '\'' :: s => literalLines (opened s)
  | '\'' :: s => literal s
  | _ => none

def key : List Char → Option (List Char × List Char)
  | '"' :: s => basic s
  | '\'' :: s => literal s
  | s => if s.takeWhile isBare = [] then none else some (s.takeWhile isBare, s.dropWhile isBare)

def endLine (s : List Char) : Option (List Char) :=
  let t := match skipSpace s with
    | '#' :: t => t.dropWhile isPlain
    | t => t
  match t with
  | [] => some []
  | '\n' :: r => some r
  | '\r' :: '\n' :: r => some r
  | _ => none

def entry (s : List Char) : Option ((String × String) × List Char) := do
  let (k, s) ← key s
  match skipSpace s with
  | '=' :: s => do
    let (v, s) ← value (skipSpace s)
    return ((.ofList k, .ofList v), s)
  | _ => none

def readLines : (lines : Nat) → List Char → Option (List (String × String))
  | 0, s => if s = [] then some [] else none
  | lines + 1, s =>
    match endLine s with
    | some [] => some []
    | some r => readLines lines r
    | none => do
      let (e, s) ← entry (skipSpace s)
      let es ← readLines lines (← endLine s)
      return e :: es

/-- The entries in order; `none` for any other document. -/
def read (text : String) : Option (List (String × String)) :=
  let s := match text.toList with
    | '\uFEFF' :: s => s
    | s => s
  readLines (s.length + 1) s

end EntityGen.Config.Table
