import EntityGen.Config.Basic
import EntityGen.Disk
import EntityGen.Path
import EntityGen.Schema

namespace EntityGen

inductive IoFault
  | disk (f : Disk.Fault)
  /-- A configuration file is not UTF-8. -/
  | notText
  | notInMemory
  /-- A directory of schemas could not be visited. -/
  | visiting (directory : Path) (f : Disk.Fault)
  | stated (text : String)
  deriving DecidableEq

def IoFault.message : IoFault → String
  | disk f => f.message
  | notText => "stream did not contain valid UTF-8"
  | notInMemory => "not in memory"
  | visiting p f => "IO error for operation on " ++ p.text ++ ": " ++ f.message
  | stated text => text

inductive Failure
  /-- The document at `path` is no schema. -/
  | schema (path : Path) (cause : Schema.Error)
  /-- There is a file at `path` that does not open with the marker. -/
  | overwriteRefused (path : Path)
  | io (path : Path) (cause : IoFault)
  /-- The entity has bindings already. -/
  | duplicateBinding (qualifiedName : String) (path : Path)
  /-- The binding function of `existing` has the name that this entity's would have. -/
  | bindingNameClash (functionName qualifiedName existing : String) (path : Path)
  /-- The run wrote `path` before. -/
  | outputConflict (path : Path)
  | config (cause : ConfigError)
  deriving DecidableEq

namespace Failure

def path? : Failure → Option Path
  | schema p _ | overwriteRefused p | io p _ | duplicateBinding _ p | bindingNameClash _ _ _ p
  | outputConflict p => some p
  | config _ => none

def message : Failure → String
  | schema p e => p.text ++ ": " ++ e.message
  | overwriteRefused p =>
    "refusing to overwrite " ++ p.text ++
      ": the file already exists and does not start with the generated-file marker"
  | io p e => "I/O error on " ++ p.text ++ ": " ++ e.message
  | duplicateBinding q p => "duplicate binding for entity " ++ q ++ " declared in " ++ p.text
  | bindingNameClash f q x p =>
    "binding function " ++ f ++ " for " ++ q ++ " clashes with " ++ x ++ ", declared in " ++ p.text
  | outputConflict p => p.text ++ " is already produced by this run"
  | config e => "configuration error: " ++ e.message

/-- What is beneath it, outermost first. -/
def causes : Failure → List String
  | schema _ e => e.message :: (match e with
    | .json f => [f.message]
    | _ => [])
  | io _ e => e.message :: (match e with
    | .visiting _ f => [f.message]
    | _ => [])
  | _ => []

end Failure

end EntityGen

namespace EntityGen

inductive Event
  | loadingConfig (path : Path)
  | enumerated (root : Path) (count : Nat)
  | generating (schema output : Path)
  | generated (path : Path)
  | registered (entity function : String)
  | repeatedName (entity : String) (schema : Path)
  | failed (f : Failure)
  deriving DecidableEq

def Event.line : Event → String
  | loadingConfig p => "DEBUG loading generator config path=" ++ p.text
  | enumerated r n =>
    "DEBUG enumerated schema documents root=" ++ r.text ++ " count=" ++ toString n
  | generating s o => "DEBUG generating entity schema=" ++ s.text ++ " output=" ++ o.text
  | generated p => "INFO generated file path=" ++ p.text
  | registered e f => "DEBUG registered scripting bindings entity=" ++ e ++ " function=" ++ f
  | repeatedName e s =>
    "WARN entity name already declared by another schema entity=" ++ e ++ " schema=" ++ s.text
  | failed f => "ERROR " ++ f.message

end EntityGen
