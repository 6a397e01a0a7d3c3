import EntityGen.Path
import EntityGen.Text.Basic

namespace EntityGen.Disk

inductive Fault
  | notFound
  | notADirectory
  | isADirectory
  | alreadyExists
  | nameTooLong
  | nulInPath
  deriving DecidableEq

def Fault.message : Fault → String
  | notFound => "No such file or directory (os error 2)"
  | alreadyExists => "File exists (os error 17)"
  | notADirectory => "Not a directory (os error 20)"
  | isADirectory => "Is a directory (os error 21)"
  | nameTooLong => "File name too long (os error 36)"
  | nulInPath => "file name contained an unexpected NUL byte"

end EntityGen.Disk

namespace EntityGen

open Text.Utf8 (Bytes)

/-- The names that lead from the root to a place. -/
abbrev Location := List String

/-- What stands in one place. Links are none of it, and nothing says who may read or write it. -/
inductive Node
  | directory
  | file (content : Bytes)
  /-- A device that reads as empty and takes everything, such as `/dev/null`. Devices that read as
  anything else are left out. -/
  | sink
  deriving DecidableEq

/-- A disk without symbolic and hard links, on which everybody may do everything and a file that is
open takes all that is written to it. -/
structure Disk where
  workingDirectory : Location
  nodes : List (Location × Node)
  /-- There is one thing in a place. -/
  nodup : (nodes.map Prod.fst).Nodup

namespace Disk

def node? (d : Disk) (l : Location) : Option Node :=
  if l = [] then some .directory else d.nodes.lookup l

theorem nodup_put {nodes : List (Location × Node)} (h : (nodes.map Prod.fst).Nodup) (l : Location)
    (n : Node) : (((l, n) :: nodes.filter (·.1 ≠ l)).map Prod.fst).Nodup := by
  rw [List.map_cons, List.nodup_cons]
  exact ⟨by simp, h.sublist (List.filter_sublist.map _)⟩

def put (d : Disk) (l : Location) (n : Node) : Disk :=
  { d with nodes := (l, n) :: d.nodes.filter (·.1 ≠ l), nodup := nodup_put d.nodup l n }

theorem node?_root (d : Disk) : d.node? [] = some .directory := by simp [node?]

theorem node?_put_self (d : Disk) {l : Location} (n : Node) (h : l ≠ []) :
    (d.put l n).node? l = some n := by simp [node?, put, h]

theorem lookup_filter_ne {l m : Location} (h : m ≠ l) (nodes : List (Location × Node)) :
    (nodes.filter (·.1 ≠ l)).lookup m = nodes.lookup m := by
  induction nodes with
  | nil => rfl
  | cons a as ih => grind

theorem node?_put_ne (d : Disk) {l m : Location} (n : Node) (h : m ≠ l) :
    (d.put l n).node? m = d.node? m := by
  have : (m == l) = false := by simpa using h
  simp only [node?, put, List.lookup_cons, this]
  rw [lookup_filter_ne h]

def nameLimit : Nat := 255

def pathLimit : Nat := 4095

def isLong (name : String) : Bool := nameLimit < name.utf8ByteSize

/-- What stands between slashes; `.` and `..` included. -/
def segments (p : Path) : List String :=
  ((p.text.toList.splitOn '/').filter (· ≠ [])).map String.ofList

def endsInSlash (p : Path) : Bool := p.text.toList.getLast? = some '/'

def admit? (p : Path) : Option Fault :=
  if '\x00' ∈ p.text.toList then some .nulInPath
  else if p.text = "" then some .notFound
  else if pathLimit < p.text.utf8ByteSize then some .nameTooLong
  else none

def start (d : Disk) (p : Path) : Location := if p.isAbsolute then [] else d.workingDirectory

def step (l : Location) (s : String) : Except Fault Location :=
  if s = "." then .ok l
  else if s = ".." then .ok l.dropLast
  else if isLong s then .error .nameTooLong
  else .ok (l ++ [s])

/-- Where the segments lead. Every place but the last must be a directory; the last need not be
anything. -/
def follow (d : Disk) (l : Location) : List String → Except Fault Location
  | [] => .ok l
  | s :: ss =>
    match d.node? l with
    | none => .error .notFound
    | some .directory =>
      match step l s with
      | .error f => .error f
      | .ok m => d.follow m ss
    | some _ => .error .notADirectory

/-- The place a path leads to. A slash at its end asks for a directory. -/
def locate (d : Disk) (p : Path) : Except Fault Location :=
  match admit? p with
  | some f => .error f
  | none => d.follow (d.start p) (segments p ++ if endsInSlash p then ["."] else [])

def find (d : Disk) (p : Path) : Except Fault Node :=
  match d.locate p with
  | .error f => .error f
  | .ok l =>
    match d.node? l with
    | none => .error .notFound
    | some n => .ok n

def isDirectory (d : Disk) (p : Path) : Bool :=
  match d.find p with
  | .ok .directory => true
  | _ => false

def isFile (d : Disk) (p : Path) : Bool :=
  match d.find p with
  | .ok (.file _) => true
  | _ => false

/-- The directory a path's last segment is looked up in, and that segment. -/
def slot (d : Disk) (p : Path) : Except Fault (Location × String) :=
  match admit? p with
  | some f => .error f
  | none =>
    let ss := segments p
    match d.follow (d.start p) ss.dropLast with
    | .error f => .error f
    | .ok l =>
      match d.node? l with
      | none => .error .notFound
      | some .directory => .ok (l, ss.getLast?.getD ".")
      | some _ => .error .notADirectory

def isDots (s : String) : Bool := s == "." || s == ".."

/-- The first `count` octets. A directory is opened, but not read; asking for nothing reads
nothing. -/
def readHead (d : Disk) (p : Path) (count : Nat) : Except Fault Bytes :=
  match d.find p with
  | .error f => .error f
  | .ok .directory => if count = 0 then .ok [] else .error .isADirectory
  | .ok (.file b) => .ok (b.take count)
  | .ok .sink => .ok []

def read (d : Disk) (p : Path) : Except Fault Bytes :=
  match d.find p with
  | .error f => .error f
  | .ok .directory => .error .isADirectory
  | .ok (.file b) => .ok b
  | .ok .sink => .ok []

def write (d : Disk) (p : Path) (content : Bytes) : Except Fault Disk :=
  match d.slot p with
  | .error f => .error f
  | .ok (l, s) =>
    if isDots s ∨ endsInSlash p then .error .isADirectory
    else if isLong s then .error .nameTooLong
    else match d.node? (l ++ [s]) with
    | some .directory => .error .isADirectory
    | some .sink => .ok d
    | _ => .ok (d.put (l ++ [s]) (.file content))

def makeDirectory (d : Disk) (p : Path) : Except Fault Disk :=
  match d.slot p with
  | .error f => .error f
  | .ok (l, s) =>
    if isDots s then .error .alreadyExists
    else if isLong s then .error .nameTooLong
    else match d.node? (l ++ [s]) with
    | some _ => .error .alreadyExists
    | none => .ok (d.put (l ++ [s]) .directory)

end Disk

end EntityGen

namespace EntityGen.Disk

def nameIn? (l m : Location) : Option String :=
  match m.getLast? with
  | some n => if m = l ++ [n] then some n else none
  | none => none

def names (d : Disk) (l : Location) : List String :=
  (d.nodes.filterMap fun e => nameIn? l e.1).mergeSort (· ≤ ·)

/-- What is below a directory, by the names that lead there, at most `depth` of them. A directory
comes right before what is in it. -/
def entriesBelow (d : Disk) : (depth : Nat) → Location → List (List String × Node)
  | 0, _ => []
  | depth + 1, l =>
    (d.names l).flatMap fun n =>
      match d.node? (l ++ [n]) with
      | none => []
      | some .directory =>
        ([n], .directory) :: (d.entriesBelow depth (l ++ [n])).map fun e => (n :: e.1, e.2)
      | some node => [([n], node)]

def depth (d : Disk) : Nat := (d.nodes.map (·.1.length)).foldl max 0

def below (d : Disk) (l : Location) : List (List String × Node) := d.entriesBelow d.depth l

end EntityGen.Disk
