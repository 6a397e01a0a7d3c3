import EntityGen.Struct
import EntityGen.Path

namespace EntityGen.Listing

/-- Lists that are found by a key. A table tells the place of each key's list. -/
structure Keyed (κ α : Type) where
  /-- In the order in which their keys came. -/
  lists : List α
  places : List (κ × Nat)
  inRange : ∀ e ∈ places, e.2 < lists.length
  deriving DecidableEq

namespace Keyed

variable {κ α : Type}

def empty : Keyed κ α where
  lists := []
  places := []
  inRange _ h := absurd h List.not_mem_nil

variable [DecidableEq κ] (x : Keyed κ α)

def place? (k : κ) : Option (Fin x.lists.length) :=
  (x.places.attach.find? (·.1.1 = k)).map fun e => ⟨e.1.2, x.inRange e.1 e.2⟩

def find? (k : κ) : Option α := (x.place? k).map x.lists.get

def add (k : κ) (a : α) : Keyed κ α where
  lists := x.lists ++ [a]
  places := x.places ++ [(k, x.lists.length)]
  inRange e he := by
    rw [List.length_append, List.length_singleton]
    rcases List.mem_append.1 he with he | he
    · exact Nat.lt_succ_of_lt (x.inRange e he)
    · rw [List.mem_singleton.1 he]
      exact Nat.lt_succ_self _

def set (i : Fin x.lists.length) (a : α) : Keyed κ α where
  lists := x.lists.set i a
  places := x.places
  inRange e he := by
    rw [List.length_set]
    exact x.inRange e he

/-- Changes the list of a key, which is `new` if the key is. -/
def update (k : κ) (new : α) (f : α → α) : Keyed κ α :=
  match x.place? k with
  | some i => x.set i (f (x.lists.get i))
  | none => x.add k (f new)

end Keyed

end EntityGen.Listing

namespace EntityGen.Listing

def includeLine (path : String) : String := "#include \"" ++ path ++ "\"\n"

def entryLine (entity : String) : String := "    X(" ++ entity ++ ")"

/-- One list. Every line of it but the last is continued. -/
def macroText (list : String) (entries : List String) : String :=
  " \\\n".intercalate (("#define " ++ list) :: entries.map entryLine) ++ "\n"

def macroTexts (lists : List (String × List String)) : String :=
  "\n".intercalate (lists.map fun l => macroText l.1 l.2)

def fileText (includes : List String) (lists : List (String × List String)) (marker : String) :
    String :=
  preamble marker ++ .join (includes.map includeLine) ++
    (if includes ≠ [] ∧ macroTexts lists ≠ "" then "\n" else "") ++ macroTexts lists

end EntityGen.Listing

namespace EntityGen.Listing

structure XList where
  target : Path
  name : String
  entries : List String
  deriving DecidableEq

def XList.key (l : XList) : List Path.Component × String := (l.target.components, l.name)

structure IncludeList where
  target : Path
  paths : List String
  /-- The paths that are there already. -/
  seen : List String
  deriving DecidableEq

namespace IncludeList

def key (l : IncludeList) : List Path.Component := l.target.components

def add (path : String) (l : IncludeList) : IncludeList :=
  if path ∈ l.seen then l else { l with paths := l.paths ++ [path], seen := l.seen ++ [path] }

end IncludeList

structure Index where
  xlistTable : Keyed (List Path.Component × String) XList := .empty
  includeTable : Keyed (List Path.Component) IncludeList := .empty
  deriving DecidableEq

namespace Index

def xlists (x : Index) : List XList := x.xlistTable.lists

def includeLists (x : Index) : List IncludeList := x.includeTable.lists

def addEntry (x : Index) (target : Path) (list entity : String) : Index :=
  let new : XList := ⟨target, list, []⟩
  { x with
    xlistTable := x.xlistTable.update new.key new fun l => { l with entries := l.entries ++ [entity] } }

def addInclude (x : Index) (target : Path) (path : String) : Index :=
  let new : IncludeList := ⟨target, [], []⟩
  { x with includeTable := x.includeTable.update new.key new (·.add path) }

def isEmpty (x : Index) : Bool := x.xlists.isEmpty && x.includeLists.isEmpty

/-- The paths without those that spell an earlier one again. -/
def distinct (ps : List Path) : List Path :=
  ps.foldl (fun qs p => if qs.any (· ≈ p) then qs else qs ++ [p]) []

def targets (x : Index) : List Path :=
  distinct (x.xlists.map XList.target ++ x.includeLists.map IncludeList.target)

def includesOf (x : Index) (target : Path) : List String :=
  ((x.includeTable.find? target.components).map IncludeList.paths).getD []

def listsOf (x : Index) (target : Path) : List (String × List String) :=
  (x.xlists.filter (·.target ≈ target)).map fun l => (l.name, l.entries)

def text (x : Index) (marker : String) (target : Path) : String :=
  fileText (x.includesOf target) (x.listsOf target) marker

def files (x : Index) (marker : String) : List (Path × String) :=
  x.targets.map fun t => (t, x.text marker t)

end Index

end EntityGen.Listing

namespace EntityGen.Manifest

def text (variableName : String) (paths : List Path) (marker : String) : String :=
  marker ++ "\nSET(" ++ variableName ++ .join (paths.map fun p => " " ++ p.includeText) ++
    " PARENT_SCOPE)\n"

end EntityGen.Manifest
