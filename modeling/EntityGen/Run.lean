import EntityGen.Binding
import EntityGen.Source
import EntityGen.Emitter
import EntityGen.Struct
import EntityGen.Listing
import EntityGen.Schema

namespace EntityGen

structure Generator where
  config : Config
  output : Path

structure Report where
  /-- What was written besides the manifest: each path once, in order. -/
  generated : List Path
  manifest : Option Path
  /-- How many documents have a header. -/
  entities : Nat
  failures : List Failure
  deriving DecidableEq

def Report.isClean (r : Report) : Bool := r.failures.isEmpty

inductive Outcome
  | finished (r : Report)
  /-- The configuration is refused, or the source cannot tell its documents. -/
  | aborted (f : Failure)
  /-- The output extension holds a slash, so a header has no path. -/
  | crashed
  deriving DecidableEq

structure Ran (σ : Type := Disk) where
  disk : σ
  outcome : Outcome
  events : List Event

structure Pass (σ : Type := Disk) where
  emitter : Emitter σ
  index : Listing.Index := {}
  bindings : Binding.Registry
  /-- The qualified names of the entities that have a header. -/
  seen : List String := []
  entities : Nat := 0
  failures : List Failure := []
  events : List Event := []

namespace Pass

variable {σ : Type}

def log (s : Pass σ) (e : Event) : Pass σ := { s with events := s.events ++ [e] }

def fail (s : Pass σ) (f : Failure) : Pass σ :=
  { s with failures := s.failures ++ [f], events := s.events ++ [.failed f] }

def emit [FileSystem σ] (s : Pass σ) (p : Path) (text marker : String) : Pass σ × Except Failure Unit :=
  let e := s.emitter.emit p text marker
  ({ s with emitter := e.emitter, events := s.events ++ e.events }, e.result)

/-- Writes a file after the last document. A path that the run wrote before is left alone. -/
def writeOnce [FileSystem σ] (s : Pass σ) (p : Path) (text marker : String) : Pass σ × Bool :=
  if s.emitter.hasWritten p then (s.fail (.outputConflict p), false)
  else match s.emit p text marker with
  | (s, .ok ()) => (s, true)
  | (s, .error f) => (s.fail f, false)

def count (s : Pass σ) (e : Entity) (document : Path) : Pass σ :=
  let t := { s with entities := s.entities + 1 }
  if e.qualifiedName ∈ s.seen then t.log (.repeatedName e.qualifiedName document)
  else { t with seen := s.seen ++ [e.qualifiedName] }

/-- Adds what the entity asks of other files, whose paths are relative to `directory`. -/
def collect (s : Pass σ) (e : Entity) (directory : Path) : Pass σ :=
  let x := e.xlists.foldl (fun x d => x.addEntry (directory / (d.target : Path)) d.list e.name) s.index
  let x := e.includeIn.foldl
    (fun x t => x.addInclude (directory / (t : Path)) e.output.includeText) x
  { s with index := x }

def bind (s : Pass σ) (e : Entity) (schema : Schema) : Pass σ :=
  if e.wantsBindings then
    match s.bindings.register schema e.output with
    | .error f => s.fail f
    | .ok r => { s with bindings := r }.log (.registered e.qualifiedName schema.bindingFunction)
  else s

end Pass

namespace Generator

variable {σ : Type} (g : Generator)

def entityPath? (document : Path) : Option Path :=
  (g.output / document).withExtension? g.config.outputExt

def directiveDirectory (document : Path) : Path := g.output / document.parent?.getD ⟨""⟩

def begin (d : σ) : Pass σ where
  emitter := { disk := d }
  bindings := { scope := g.config.bindingNamespace, classSuffix := g.config.bindingClassSuffix }

/-- A document that is a schema: its header, and what follows from that. -/
def generate [FileSystem σ] (s : Pass σ) (source : Source σ) (document : Path) (schema : Schema)
    (output : Path) : Pass σ :=
  let s := s.log (.generating (source.display document) output)
  let e := Entity.ofSchema g.config schema output
  match s.emit output e.text g.config.marker with
  | (s, .error f) => s.fail f
  | (s, .ok ()) =>
    ((s.count e (source.display document)).collect e (g.directiveDirectory document)).bind e schema

/-- One document. The error is the state in which a header had no path. -/
def process [FileSystem σ] (source : Source σ) (s : Pass σ) (document : Path) :
    Except (Pass σ) (Pass σ) :=
  match source.read s.emitter.disk document with
  | .error f => .ok (s.fail f)
  | .ok bytes =>
    match Schema.parse bytes with
    | .error e => .ok (s.fail (.schema (source.display document) e))
    | .ok schema =>
      match g.entityPath? document with
      | none => .error s
      | some output => .ok (g.generate s source document schema output)

def sharedFiles (s : Pass σ) : List (Path × String) :=
  s.index.files g.config.marker ++
    s.bindings.files g.config.marker (g.output / (g.config.bindingHeader : Path))
      (g.output / (g.config.bindingSource : Path))

def manifestPath : Path := g.output / (g.config.manifestFile : Path)

def finish [FileSystem σ] (s : Pass σ) : Pass σ × Report :=
  let s := (g.sharedFiles s).foldl (fun s f => (s.writeOnce f.1 f.2 g.config.marker).1) s
  let generated := s.emitter.written
  let marker := g.config.manifestMarker
  let text := Manifest.text g.config.manifestVariable generated marker
  let (s, done) := s.writeOnce g.manifestPath text marker
  (s, {
    generated
    manifest := if done then some g.manifestPath else none
    entities := s.entities
    failures := s.failures })

/-- A run. Documents are taken in the order of their source; what a document adds to other files counts
only once its own header is on the disk. Those files are written after the last document, then the
manifest. A failure skips what it concerns and nothing else. -/
def run [FileSystem σ] (source : Source σ) (d : σ) : Ran σ :=
  match g.config.validate with
  | .error e => ⟨d, .aborted (.config e), []⟩
  | .ok () =>
    match source.paths d with
    | .error f => ⟨d, .aborted f, []⟩
    | .ok documents =>
      match documents.foldlM (g.process source) (g.begin d) with
      | .error s => ⟨s.emitter.disk, .crashed, source.listed documents ++ s.events⟩
      | .ok s =>
        let (s, r) := g.finish s
        ⟨s.emitter.disk, .finished r, source.listed documents ++ s.events⟩

def runDirectory (input : Path) (d : Disk) : Ran :=
  g.run (DirectorySource.of input g.config.schemaExt).source d

end Generator

def runDiscovered (input output : Path) (d : Disk) : Ran :=
  match Config.discover d input with
  | (.error f, events) => ⟨d, .aborted f, events⟩
  | (.ok config, events) =>
    let r := (Generator.mk config output).runDirectory input d
    { r with events := events ++ r.events }

end EntityGen
