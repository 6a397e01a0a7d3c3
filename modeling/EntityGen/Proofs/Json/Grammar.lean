import EntityGen.Json.Value

namespace EntityGen.Json

open Text.Utf8 (Bytes)

def Gap (s : Bytes) : Prop := ∀ b ∈ s, isSpace b = true

theorem gap_nil : Gap [] := fun _ h => absurd h List.not_mem_nil

structure Digits (s : Bytes) : Prop where
  nonempty : s ≠ []
  digits : ∀ b ∈ s, isDigit b = true

/-- Digits without a zero in front, or zero. -/
inductive Whole : Bytes → Prop
  | zero : Whole [0x30]
  | digits {d : UInt8} {ds : Bytes} (hd : d ≠ 0x30) (h : Digits (d :: ds)) : Whole (d :: ds)

inductive Fraction : Bytes → Prop
  | none : Fraction []
  | some {ds : Bytes} (h : Digits ds) : Fraction (0x2E :: ds)

inductive Exponent : Bytes → Prop
  | none : Exponent []
  | plain {e : UInt8} {ds : Bytes} (he : e = 0x65 ∨ e = 0x45) (h : Digits ds) : Exponent (e :: ds)
  | signed {e sign : UInt8} {ds : Bytes} (he : e = 0x65 ∨ e = 0x45) (hs : sign = 0x2B ∨ sign = 0x2D)
      (h : Digits ds) : Exponent (e :: sign :: ds)

inductive IsNumber : Bytes → Prop
  | positive {w f e : Bytes} (hw : Whole w) (hf : Fraction f) (he : Exponent e) : IsNumber (w ++ (f ++ e))
  | negative {w f e : Bytes} (hw : Whole w) (hf : Fraction f) (he : Exponent e) :
      IsNumber (0x2D :: (w ++ (f ++ e)))

/-- A number before `x` ends there. -/
structure Stops (x : Bytes) : Prop where
  digit : ∀ b, x.head? = some b → isDigit b = false
  point : x.head? ≠ some 0x2E
  exponent : x.head? ≠ some 0x65 ∧ x.head? ≠ some 0x45

/-- What may stand between quotes. Escapes need not pair surrogates. -/
inductive IsText : Bytes → Prop
  | nil : IsText []
  | octet {b : UInt8} {s : Bytes} (hq : b ≠ quote) (hb : b ≠ backslash) (hc : ¬ b < 0x20) (h : IsText s) :
      IsText (b :: s)
  | short {b c : UInt8} {s : Bytes} (hb : shortEscape? b = some c) (h : IsText s) :
      IsText (backslash :: b :: s)
  | unit {a b c d : UInt8} {s : Bytes} (hu : ∀ x ∈ [a, b, c, d], hexDigit? x ≠ none) (h : IsText s) :
      IsText (backslash :: 0x75 :: a :: b :: c :: d :: s)

def isPlain (s : Bytes) : Bool := s.all fun b => b != quote && b != backslash && !decide (b < 0x20)

theorem isText_of_isPlain {s : Bytes} (h : isPlain s = true) : IsText s := by
  induction s with
  | nil => exact .nil
  | cons b s ih =>
      simp only [isPlain, List.all_cons, Bool.and_eq_true, bne_iff_ne, Bool.not_eq_true', decide_eq_false_iff_not] at h
      obtain ⟨⟨⟨hq, hb⟩, hc⟩, hs⟩ := h
      exact .octet hq hb hc (ih hs)

def openList : UInt8 := 0x5B
def openRecord : UInt8 := 0x7B

/-- Pieces with commas between them and space around them, up to the closing bracket. A piece that is
`first` has no comma before it. -/
inductive Row (close : UInt8) : Bool → List Bytes → Bytes → Prop
  | close {first : Bool} {a : Bytes} (ha : Gap a) : Row close first [] (a ++ [close])
  | first {a p s : Bytes} {ps : List Bytes} (ha : Gap a) (h : Row close false ps s) :
      Row close true (p :: ps) (a ++ (p ++ s))
  | next {a b p s : Bytes} {ps : List Bytes} (ha : Gap a) (hb : Gap b) (h : Row close false ps s) :
      Row close false (p :: ps) (a ++ comma :: (b ++ (p ++ s)))

/-- A member as it is written: its key, without quotes, and its value, with the space on either side of
the colon. -/
structure Member where
  key : Bytes
  before : Bytes := []
  after : Bytes := []
  value : Bytes
  deriving DecidableEq

namespace Member

def text (m : Member) : Bytes :=
  quote :: (m.key ++ quote :: (m.before ++ colon :: (m.after ++ m.value)))

structure Spelled (m : Member) : Prop where
  key : IsText m.key
  before : Gap m.before
  after : Gap m.after

end Member

inductive IsValue : Bytes → Prop
  | nullWord : IsValue [0x6E, 0x75, 0x6C, 0x6C]
  | trueWord : IsValue [0x74, 0x72, 0x75, 0x65]
  | falseWord : IsValue [0x66, 0x61, 0x6C, 0x73, 0x65]
  | number {v : Bytes} (h : IsNumber v) : IsValue v
  | text {v : Bytes} (h : IsText v) : IsValue (quote :: (v ++ [quote]))
  | list {vs : List Bytes} {s : Bytes} (h : Row closeList true vs s) (hv : ∀ v ∈ vs, IsValue v) :
      IsValue (openList :: s)
  | record {ms : List Member} {s : Bytes} (h : Row closeRecord true (ms.map Member.text) s)
      (hm : ∀ m ∈ ms, m.Spelled) (hv : ∀ m ∈ ms, IsValue m.value) : IsValue (openRecord :: s)

structure IsList (vs : List Bytes) (v : Bytes) : Prop where
  row : ∃ s, v = openList :: s ∧ Row closeList true vs s
  values : ∀ v ∈ vs, IsValue v

structure IsRecord (ms : List Member) (v : Bytes) : Prop where
  row : ∃ s, v = openRecord :: s ∧ Row closeRecord true (ms.map Member.text) s
  spelled : ∀ m ∈ ms, m.Spelled
  values : ∀ m ∈ ms, IsValue m.value

theorem IsList.isValue {vs : List Bytes} {v : Bytes} (h : IsList vs v) : IsValue v := by
  obtain ⟨⟨s, rfl, hs⟩, hv⟩ := h
  exact .list hs hv

theorem IsRecord.isValue {ms : List Member} {v : Bytes} (h : IsRecord ms v) : IsValue v := by
  obtain ⟨⟨s, rfl, hs⟩, hm, hv⟩ := h
  exact .record hs hm hv

def rowText (close : UInt8) : Bool → List Bytes → Bytes
  | _, [] => [close]
  | true, p :: ps => p ++ rowText close false ps
  | false, p :: ps => comma :: (p ++ rowText close false ps)

def listText (vs : List Bytes) : Bytes := openList :: rowText closeList true vs
def recordText (ms : List Member) : Bytes := openRecord :: rowText closeRecord true (ms.map Member.text)

theorem row_rowText (close : UInt8) (first : Bool) (ps : List Bytes) : Row close first ps (rowText close first ps) := by
  induction ps generalizing first with
  | nil => exact .close gap_nil
  | cons p ps ih =>
      cases first with
      | true => exact .first gap_nil (ih false)
      | false => exact .next gap_nil gap_nil (ih false)

theorem isList_listText {vs : List Bytes} (h : ∀ v ∈ vs, IsValue v) : IsList vs (listText vs) :=
  ⟨⟨_, rfl, row_rowText _ _ _⟩, h⟩

theorem isRecord_recordText {ms : List Member} (h : ∀ m ∈ ms, m.Spelled ∧ IsValue m.value) :
    IsRecord ms (recordText ms) :=
  ⟨⟨_, rfl, row_rowText _ _ _⟩, fun m hm => (h m hm).1, fun m hm => (h m hm).2⟩

end EntityGen.Json
