import EntityGen.Disk

namespace EntityGen

open Text.Utf8 (Bytes)

/-- What the program asks of a file system when it writes. -/
class FileSystem (σ : Type) where
  /-- The first octets of what a path leads to, at most `count` of them. -/
  readHead (d : σ) (p : Path) (count : Nat) : Except Disk.Fault Bytes
  isDirectory (d : σ) (p : Path) : Bool
  /-- Makes one directory, in a directory that is there. -/
  makeDirectory (d : σ) (p : Path) : Except Disk.Fault σ
  /-- The file at a path gets a new content, or is made. -/
  write (d : σ) (p : Path) (content : Bytes) : Except Disk.Fault σ

namespace FileSystem

variable {σ : Type} [FileSystem σ]

def ensureDirectory (d : σ) (p : Path) : σ × Except Disk.Fault Unit :=
  match makeDirectory d p with
  | .ok d' => (d', .ok ())
  | .error f => (d, if isDirectory d p then .ok () else .error f)

/-- Makes the first of a chain of directories, each in the one after it. It starts at the first:
only if that is in nothing yet does the rest of the chain come before it. What was made stays made
if a later step fails. -/
def ensureChain (d : σ) : List Path → σ × Except Disk.Fault Unit
  | [] => (d, .ok ())
  | p :: outer =>
    match makeDirectory d p with
    | .error .notFound =>
      match ensureChain d outer with
      | (d', .ok ()) => ensureDirectory d' p
      | (d', .error f) => (d', .error f)
    | _ => ensureDirectory d p

def ensureDirectories (d : σ) (p : Path) : σ × Except Disk.Fault Unit := ensureChain d p.ancestors

end FileSystem

namespace Disk

instance : FileSystem Disk where
  readHead := Disk.readHead
  isDirectory := Disk.isDirectory
  makeDirectory := Disk.makeDirectory
  write := Disk.write

variable (d : Disk) (p : Path)

@[simp]
theorem fileSystem_readHead (count : Nat) : FileSystem.readHead d p count = d.readHead p count := rfl

@[simp]
theorem fileSystem_isDirectory : FileSystem.isDirectory d p = d.isDirectory p := rfl

@[simp]
theorem fileSystem_makeDirectory : FileSystem.makeDirectory d p = d.makeDirectory p := rfl

@[simp]
theorem fileSystem_write (content : Bytes) : FileSystem.write d p content = d.write p content := rfl

end Disk

/-- A disk with symbolic links, which are neither made nor removed. -/
structure Linked where
  disk : Disk
  /-- The places that hold a link, each with the place it leads to in the end. What the disk itself
  holds in such a place is out of reach. -/
  links : List (Location × Location)

namespace Linked

variable (d : Linked)

def target (l : Location) : Location := (d.links.lookup l).getD l

/-- Where the segments lead, through the links on the way and the one at the end. -/
def follow (l : Location) (ss : List String) : Except Disk.Fault Location :=
  ss.foldlM (fun l s => (d.disk.follow l [s]).map d.target) l

/-- The place a path names, which may hold a link. -/
def place (p : Path) : Except Disk.Fault Location :=
  match Disk.admit? p with
  | some f => .error f
  | none =>
    let ss := Disk.segments p
    (d.follow (d.disk.start p) ss.dropLast).map (· ++ [ss.getLast?.getD "."])

/-- The disk as it is seen from the directory that a place is in. -/
def beside (l : Location) : Disk := { d.disk with workingDirectory := l.dropLast }

/-- The name of a place in its directory, with a slash after it if there is one after `p`. -/
def name (p : Path) (l : Location) : Path :=
  ⟨l.getLast?.getD "." ++ if Disk.endsInSlash p then "/" else ""⟩

def become (e : Disk) : Linked :=
  { d with disk := { e with workingDirectory := d.disk.workingDirectory } }

instance : FileSystem Linked where
  readHead d p count := do
    let l := d.target (← d.place p)
    (d.beside l).readHead (name p l) count
  isDirectory d p :=
    match d.place p with
    | .ok l => (d.beside (d.target l)).isDirectory (name p (d.target l))
    | .error _ => false
  makeDirectory d p := do
    let l ← d.place p
    if (d.links.lookup l).isSome then .error .alreadyExists
    else return d.become (← (d.beside l).makeDirectory (name p l))
  write d p content := do
    let l := d.target (← d.place p)
    return d.become (← (d.beside l).write (name p l) content)

end Linked

end EntityGen
