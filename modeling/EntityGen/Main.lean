import EntityGen.Run
import EntityGen.CommandLine

namespace EntityGen

namespace Disk

/-- The places that the segments may lead through, whatever is there. -/
def trail (l : Location) : List String → List Location
  | [] => [l]
  | s :: ss =>
    l :: match step l s with
      | .ok m => trail m ss
      | .error _ => []

def along (d : Disk) (p : Path) : List Location := trail (d.start p) (segments p)

end Disk

namespace Generator

variable (g : Generator)

def entityOutputs (document : Path) (s : Schema) : List Path :=
  (g.entityPath? document).toList ++
    (s.xlists.map XListDirective.target ++ s.includeIn).map fun (t : String) =>
      g.directiveDirectory document / (t : Path)

def outputs (source : Source) (d : Disk) : List Path :=
  ((source.paths d).toOption.getD []).flatMap (fun document =>
    match source.read d document with
    | .error _ => []
    | .ok bytes => ((Schema.parse bytes).map (g.entityOutputs document)).toOption.getD []) ++
  [g.output / (g.config.bindingHeader : Path), g.output / (g.config.bindingSource : Path),
    g.manifestPath]

end Generator

end EntityGen

namespace EntityGen.Program

def spelled (l : Location) : String := "/" ++ "/".intercalate l

/-- What is at a location; what is no directory and no file counts as a device. -/
def node? (l : Location) : IO (Option Node) := do
  let p := (← IO.currentDir) / spelled l
  if !(← p.pathExists) then return none
  match (← p.metadata).type with
  | .dir => return some .directory
  | .file => return some (.file (← IO.FS.readBinFile p).toList)
  | _ => return some .sink

def loadNode (d : Disk) (l : Location) : IO Disk := do
  match ← node? l with
  | some n => return d.put l n
  | none => return d

def loadAlong (d : Disk) (ps : List Path) : IO Disk :=
  (ps.flatMap d.along).eraseDups.foldlM loadNode d

partial def loadBelow (d : Disk) (l : Location) : IO Disk := do
  let p := (← IO.currentDir) / spelled l
  if !(← p.isDir) then return d
  (← p.readDir).foldlM (fun d e => do
    let m := l ++ [e.fileName]
    loadBelow (← loadNode d m) m) d

def snapshot (d : Disk) : CommandLine.Request → IO Disk
  | .generate input output => do
    let d ← loadAlong d [input, input / (Config.fileName : Path)]
    match (Config.discover d input).1, d.locate input with
    | .ok config, .ok l =>
      let d ← loadBelow d l
      let source := (DirectorySource.of input config.schemaExt).source
      loadAlong d ((Generator.mk config output).outputs source d)
    | _, _ => return d
  | _ => return d

/-- Writes what is new in `after`, the oldest first. -/
def store (before after : Disk) : IO Unit :=
  after.nodes.reverse.forM fun (l, n) => do
    if before.node? l ≠ some n then
      match n with
      | .directory => IO.FS.createDirAll (spelled l)
      | .file content => IO.FS.writeBinFile (spelled l) ⟨content.toArray⟩
      | .sink => return

/-- What a run may look at is read from the disk, the run is done on that, and what it changed is
written back. -/
def run (arguments : List String) : IO UInt32 := do
  let here : Disk :=
    { workingDirectory := Disk.segments ⟨(← IO.currentDir).toString⟩
      nodes := []
      nodup := List.nodup_nil }
  let before ← snapshot here (CommandLine.Request.ofArguments arguments)
  let (after, answer) := CommandLine.run arguments before
  store before after
  IO.print answer.stdout
  IO.eprint answer.stderr
  return answer.exitCode

end EntityGen.Program

def main (arguments : List String) : IO UInt32 := EntityGen.Program.run arguments
