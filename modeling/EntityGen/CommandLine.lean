import EntityGen.Run

namespace EntityGen.CommandLine

inductive Request
  | generate (input output : Path)
  | help
  | version
  | refused
  deriving DecidableEq

inductive Flag
  | input
  | output
  deriving DecidableEq

inductive Argument
  | flag (f : Flag) (value : Option String)
  | help
  | version
  /-- `--`, after which nothing is a flag. -/
  | rest
  | plain (text : String)
  | unknown
  deriving DecidableEq

def longArgument (cs : List Char) : Argument :=
  let name := String.ofList (cs.takeWhile (· ≠ '='))
  let value := match cs.dropWhile (· ≠ '=') with
    | _ :: v => some (String.ofList v)
    | [] => none
  match name, value with
  | "input", v => .flag .input v
  | "output", v => .flag .output v
  | "help", none => .help
  | "version", none => .version
  | _, _ => .unknown

def attached : List Char → Option String
  | [] => none
  | '=' :: cs => some (.ofList cs)
  | cs => some (.ofList cs)

def Argument.of (text : String) : Argument :=
  match text.toList with
  | ['-', '-'] => .rest
  | '-' :: '-' :: cs => longArgument cs
  | '-' :: 'i' :: cs => .flag .input (attached cs)
  | '-' :: 'o' :: cs => .flag .output (attached cs)
  | '-' :: 'h' :: _ => .help
  | '-' :: 'V' :: _ => .version
  | '-' :: _ :: _ => .unknown
  | _ => .plain text

structure Given where
  input : Option String := none
  output : Option String := none

/-- A flag is given once, and not with an empty value. -/
def Given.set (g : Given) (f : Flag) (v : String) : Option Given :=
  if v = "" then none
  else match f, g with
  | .input, ⟨none, o⟩ => some ⟨some v, o⟩
  | .output, ⟨i, none⟩ => some ⟨i, some v⟩
  | _, _ => none

def Given.request (g : Given) : Request :=
  match g.input, g.output with
  | some i, some o => .generate i o
  | _, _ => .refused

/-- From left to right; the first argument that settles the matter does. `awaiting` is a flag whose
value is the next argument. -/
def Given.read (g : Given) (awaiting : Option Flag) : List String → Request
  | [] => if awaiting.isNone then g.request else .refused
  | a :: as =>
    match awaiting, Argument.of a with
    | some f, .plain v | none, .flag f (some v) =>
      match g.set f v with
      | some g => g.read none as
      | none => .refused
    | none, .flag f none => g.read (some f) as
    | none, .help => .help
    | none, .version => .version
    | none, .rest => if as = [] then g.request else .refused
    | _, _ => .refused

def Request.ofArguments (arguments : List String) : Request := ({} : Given).read none arguments

inductive Answer
  | refused
  | help
  | version
  | noInput (input : Path)
  | noConfig (input : Path) (f : Failure)
  | noDocuments (input : Path) (f : Failure)
  | crashed
  | done (r : Report)
  deriving DecidableEq

def usage : String := "Usage: cyan-codegen --input <INPUT> --output <OUTPUT>\n"

def helpText : String :=
  "Generate C++ code from .json schema files\n\n" ++ usage ++ "\n" ++
    "Options:\n" ++
    "  -i, --input <INPUT>    Directory to scan for schema files\n" ++
    "  -o, --output <OUTPUT>  Directory to write generated files to\n" ++
    "  -h, --help             Print help\n" ++
    "  -V, --version          Print version\n"

def versionText : String := "cyan-codegen 0.1.0\n"

def generatedLine (p : Path) (number : Nat) : String :=
  "    " ++ toString number ++ "\t\"" ++ p.text ++ "\"\n"

def failureLine (f : Failure) : String := "    ERROR: " ++ f.message ++ "\n"

def summary (r : Report) : String :=
  "codegen complete (generated " ++ toString r.generated.length ++ " files):\n" ++
    .join (r.generated.mapIdx fun i p => generatedLine p (i + 1)) ++
    (match r.manifest with
      | some p => "Manifest: " ++ p.text ++ "\n"
      | none => "") ++
    (if r.isClean then ""
      else "\n" ++ toString r.failures.length ++ " error(s):\n" ++
        .join (r.failures.map failureLine))

def indent (margin text : String) : String :=
  ("\n" ++ margin).intercalate ((text.toList.splitOn '\n').map String.ofList)

def explained (message : String) (causes : List String) : String :=
  "Error: " ++ message ++
    (match causes with
      | [] => ""
      | [c] => "\n\nCaused by:\n    " ++ indent "    " c
      | cs => "\n\nCaused by:" ++
        .join (cs.mapIdx fun i c => "\n    " ++ toString i ++ ": " ++ indent "       " c)) ++ "\n"

namespace Answer

def exitCode : Answer → UInt32
  | help | version | done _ => 0
  | noInput _ | noConfig .. | noDocuments .. => 1
  | refused => 2
  | crashed => 101

def stdout : Answer → String
  | help => helpText
  | version => versionText
  | done r => summary r
  | _ => ""

def stderr : Answer → String
  | noInput p => explained ("Input directory not found: " ++ p.text) []
  | noConfig p f => explained ("Failed to load config from " ++ p.text) (f.message :: f.causes)
  | noDocuments p f => explained ("Failed to scan " ++ p.text) (f.message :: f.causes)
  | refused => "error: unexpected or missing arguments\n\n" ++ usage
  | crashed => "error: an extension holds no slash\n"
  | help | version | done _ => ""

end Answer

def generate (input output : Path) (d : Disk) : Disk × Answer :=
  if !d.isDirectory input then (d, .noInput input)
  else match (Config.discover d input).1 with
  | .error f => (d, .noConfig input f)
  | .ok config =>
    let r := (Generator.mk config output).runDirectory input d
    (r.disk, match r.outcome with
      | .finished report => .done report
      | .aborted f => .noDocuments input f
      | .crashed => .crashed)

def run (arguments : List String) (d : Disk) : Disk × Answer :=
  match Request.ofArguments arguments with
  | .generate input output => generate input output d
  | .help => (d, .help)
  | .version => (d, .version)
  | .refused => (d, .refused)

end EntityGen.CommandLine
