namespace EntityGen

/-- A text, and the components it spells. Two spellings of the same components are `≈`; no component
is ever resolved against another, so `a/../b` is not `b`. -/
structure Path where
  text : String
  deriving DecidableEq

namespace Path

inductive Component
  | root
  | here
  | up
  | name (n : String)
  deriving DecidableEq

instance : Coe String Path := ⟨Path.mk⟩

/-- A path opens with `/`, or with a `.` that is a component, or with neither. -/
inductive Lead
  | root
  | here
  | none
  deriving DecidableEq

def Lead.text : Lead → List Char
  | .root => ['/']
  | .here => ['.']
  | .none => []

def Lead.components : Lead → List Component
  | .root => [.root]
  | .here => [.here]
  | .none => []

def cut : List Char → Lead × List Char
  | '/' :: cs => (.root, cs)
  | ['.'] => (.here, [])
  | '.' :: '/' :: cs => (.here, '/' :: cs)
  | cs => (.none, cs)

variable (p : Path)

def lead : Lead := (cut p.text.toList).1

def pieces : List (List Char) := (cut p.text.toList).2.splitOn '/'

def ofPieces (l : Lead) (ps : List (List Char)) : Path :=
  ⟨.ofList (l.text ++ ['/'].intercalate ps)⟩

/-- A piece that is no component: it adds nothing to where a path leads. -/
def isIdle (piece : List Char) : Bool := piece == [] || piece == ['.']

def backward : List (List Char) := p.pieces.reverse.dropWhile isIdle

def component? (piece : List Char) : Option Component :=
  if isIdle piece then none
  else if piece = ['.', '.'] then some .up
  else some (.name (.ofList piece))

def components : List Component := p.lead.components ++ p.pieces.filterMap component?

instance : Setoid Path where
  r p q := p.components = q.components
  iseqv := ⟨fun _ => rfl, Eq.symm, Eq.trans⟩

instance (p q : Path) : Decidable (p ≈ q) := inferInstanceAs (Decidable (p.components = q.components))

theorem equiv_iff {p q : Path} : p ≈ q ↔ p.components = q.components := Iff.rfl

def fileName? : Option String :=
  match p.components.getLast? with
  | some (.name n) => some n
  | _ => none

/-- Everything before the last component, without idle pieces at its end. -/
def parent? : Option Path :=
  match p.backward with
  | _ :: before => some (ofPieces p.lead (before.dropWhile isIdle).reverse)
  | [] => if p.lead = .here then some ⟨""⟩ else none

/-- The path, its parent, and so on up to but without the empty path. -/
def ancestors : List Path := go p.components.length p
where
  go : Nat → Path → List Path
    | 0, _ => []
    | n + 1, p =>
      if p.text = "" then []
      else p :: (p.parent?.map (go n)).getD []

def isAbsolute : Bool := p.lead = .root

def join (p q : Path) : Path :=
  if q.isAbsolute then q
  else if p.text = "" ∨ p.text.toList.getLast? = some '/' then ⟨p.text ++ q.text⟩
  else ⟨p.text ++ "/" ++ q.text⟩

instance : Div Path := ⟨join⟩

/-- A name cut at its last dot, which must not be its first character. -/
def splitExtension (name : List Char) : List Char × Option (List Char) :=
  match name.reverse.dropWhile (· ≠ '.') with
  | _ :: c :: stem => ((c :: stem).reverse, some (name.reverse.takeWhile (· ≠ '.')).reverse)
  | _ => (name, none)

def extension? : Option String :=
  p.fileName?.bind fun n => (splitExtension n.toList).2.map String.ofList

def extended (stem : List Char) (ext : String) : List Char :=
  if ext = "" then stem else stem ++ '.' :: ext.toList

/-- The path with `ext` for its extension; `none` if `ext` holds a slash. The old extension goes
before the new one comes, and what is left of `..x` in between is `..`: no file name any more, so
it takes no extension. Idle pieces after the name shield it from this, and are lost. -/
def withExtension? (ext : String) : Option Path :=
  if '/' ∈ ext.toList then none
  else match p.backward with
  | [] => some p
  | name :: before =>
    if name = ['.', '.'] then some p
    else
      let stem := (splitExtension name).1
      if stem = ['.'] ∧ p.pieces.getLast? = some name then
        some (ofPieces p.lead (before.reverse ++ [['.', '.']]))
      else some (ofPieces p.lead (before.reverse ++ [extended stem ext]))

/-- The spelling that generated files use: slashes only. -/
def includeText : String :=
  .ofList (p.text.toList.map fun c => if c = '\\' then '/' else c)

end Path

end EntityGen
