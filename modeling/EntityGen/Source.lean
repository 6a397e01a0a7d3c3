import EntityGen.Disk
import EntityGen.Failure

namespace EntityGen.Config

def fileName : String := "codegen.toml"

def load (d : Disk) (p : Path) : Except Failure Config :=
  match d.read p with
  | .error f => .error (.io p (.disk f))
  | .ok b =>
    match Text.Utf8.decode b with
    | none => .error (.io p .notText)
    | some text => (parse text).mapError .config

def discover (d : Disk) (directory : Path) : Except Failure Config × List Event :=
  let p := directory / (fileName : Path)
  if d.isFile p then (load d p, [.loadingConfig p]) else (.ok {}, [])

end EntityGen.Config

namespace EntityGen

open Text.Utf8 (Bytes)

/-- What a source answers may depend on the disk. -/
structure Source (σ : Type := Disk) where
  /-- The documents, in the order in which they are taken. -/
  paths : σ → Except Failure (List Path)
  read : σ → Path → Except Failure Bytes
  /-- A document's path in messages. -/
  display : Path → Path := id
  /-- What is logged when the documents are known. -/
  listed : List Path → List Event := fun _ => []

/-- Documents that are held by the program. The first one at a path counts. -/
def Source.inMemory {σ : Type} (documents : List (Path × Option Bytes)) : Source σ where
  paths _ := .ok (documents.map Prod.fst)
  read _ p :=
    match (documents.find? (·.1 ≈ p)).bind Prod.snd with
    | some b => .ok b
    | none => .error (.io p .notInMemory)

/-- Files below a directory, or the file that stands in its place. Every directory may be read, so only
a path that is too long keeps one below the root from being opened. -/
structure DirectorySource where
  root : Path
  /-- Without dots before it. -/
  extension : String

namespace DirectorySource

def of (root : Path) (extension : String) : DirectorySource :=
  ⟨root, Config.withoutDots extension⟩

variable (s : DirectorySource)

def hasExtension (name : String) : Bool :=
  (Path.splitExtension name.toList).2 = some s.extension.toList

def relativePath (names : List String) : Path := ⟨"/".intercalate names⟩

def unvisited (p : Path) (f : Disk.Fault) : Failure := .io p (.visiting p f)

/-- A directory below the root that cannot be opened, its path being too long. -/
def unopened? (e : List String × Node) : Option Failure :=
  let p := s.root / relativePath e.1
  if e.2 = .directory then (Disk.admit? p).map (unvisited p) else none

def document? (e : List String × Node) : Option Path :=
  match e.2 with
  | .file _ => if e.1.getLast?.any s.hasExtension then some (relativePath e.1) else none
  | _ => none

def documents (es : List (List String × Node)) : Except Failure (List Path) :=
  match es.findSome? s.unopened? with
  | some f => .error f
  | none => .ok (es.filterMap s.document?)

def paths (d : Disk) : Except Failure (List Path) :=
  match d.find s.root with
  | .error f => .error (unvisited s.root f)
  | .ok .directory => s.documents (((d.locate s.root).map d.below).toOption.getD [])
  | .ok (.file _) => .ok (if s.root.extension? = some s.extension then [⟨""⟩] else [])
  | .ok .sink => .ok []

def display (p : Path) : Path := s.root / p

def read (d : Disk) (p : Path) : Except Failure Bytes :=
  (d.read (s.display p)).mapError fun f => .io (s.display p) (.disk f)

def source : Source where
  paths := s.paths
  read := s.read
  display := s.display
  listed ps := [.enumerated s.root ps.length]

end DirectorySource

end EntityGen
