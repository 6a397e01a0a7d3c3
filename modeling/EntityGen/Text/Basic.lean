namespace EntityGen.Text

/-- The White_Space property of Unicode. -/
def isBlank (c : Char) : Bool :=
  let n := c.toNat
  (0x9 ≤ n && n ≤ 0xD) || n == 0x20 || n == 0x85 || n == 0xA0 || n == 0x1680 ||
    (0x2000 ≤ n && n ≤ 0x200A) || n == 0x2028 || n == 0x2029 || n == 0x202F || n == 0x205F ||
    n == 0x3000

def trimStartList (p : Char → Bool) (cs : List Char) : List Char := cs.dropWhile p

def trimEndList (p : Char → Bool) (cs : List Char) : List Char := (cs.reverse.dropWhile p).reverse

def trim (s : String) : String := .ofList (trimEndList isBlank (trimStartList isBlank s.toList))

def trimStart (p : Char → Bool) (s : String) : String := .ofList (trimStartList p s.toList)

def allBlank (s : String) : Bool := s.toList.all isBlank

end EntityGen.Text

namespace EntityGen.Text.Utf8

abbrev Bytes := List UInt8

def encode (s : String) : Bytes := s.toList.flatMap String.utf8EncodeChar

/-- A character of which some octets are read: its high bits, the range of the next octet and the
number of octets after that one. -/
structure Begun where
  high : Nat
  low : UInt8
  top : UInt8
  more : Nat

/-- `none` marks a gap. -/
abbrev Piece := Option Char

/-- An octet at the start of a character. The ranges leave out long forms, surrogates and what is
above U+10FFFF. -/
def lead (b : UInt8) : List Piece × Option Begun :=
  let n := b.toNat
  if n < 0x80 then ([some (Char.ofNat n)], none)
  else if n < 0xC2 then ([none], none)
  else if n < 0xE0 then ([], some ⟨n - 0xC0, 0x80, 0xBF, 0⟩)
  else if n = 0xE0 then ([], some ⟨0, 0xA0, 0xBF, 1⟩)
  else if n = 0xED then ([], some ⟨0xD, 0x80, 0x9F, 1⟩)
  else if n < 0xF0 then ([], some ⟨n - 0xE0, 0x80, 0xBF, 1⟩)
  else if n = 0xF0 then ([], some ⟨0, 0x90, 0xBF, 2⟩)
  else if n < 0xF4 then ([], some ⟨n - 0xF0, 0x80, 0xBF, 2⟩)
  else if n = 0xF4 then ([], some ⟨4, 0x80, 0x8F, 2⟩)
  else ([none], none)

def next (p : Option Begun) (b : UInt8) : List Piece × Option Begun :=
  match p with
  | none => lead b
  | some p =>
    if p.low ≤ b ∧ b ≤ p.top then
      let code := p.high * 64 + (b.toNat - 0x80)
      match p.more with
      | 0 => ([some (Char.ofNat code)], none)
      | k + 1 => ([], some ⟨code, 0x80, 0xBF, k⟩)
    else
      let (out, q) := lead b
      (none :: out, q)

/-- Octets are read one at a time. One that cannot follow closes the sequence it broke as a gap and opens a
sequence of its own, so each gap is a longest beginning of a character. -/
def piecesFrom : Option Begun → Bytes → List Piece
  | none, [] => []
  | some _, [] => [none]
  | p, b :: bs => (next p b).1 ++ piecesFrom (next p b).2 bs

def pieces (bs : Bytes) : List Piece := piecesFrom none bs

def decodeList (bs : Bytes) : Option (List Char) := (pieces bs).mapM id

def decode (bs : Bytes) : Option String := (decodeList bs).map String.ofList

def decodeLossy (bs : Bytes) : String := .ofList ((pieces bs).map (·.getD '\uFFFD'))

end EntityGen.Text.Utf8
