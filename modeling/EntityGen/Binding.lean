import EntityGen.Struct
import EntityGen.Listing
import EntityGen.Failure

namespace EntityGen

def combinedFunction : String := "make_all_codegen_chai_bindings"

def Schema.bindingFunction (s : Schema) : String :=
  match s.scope with
  | some ns => "make_" ++ Namespace.mangle ns ++ "_" ++ s.name ++ "_chai_bindings"
  | none => "make_" ++ s.name ++ "_chai_bindings"

structure Binding where
  function : String
  qualifiedName : String
  scriptName : String
  /-- The parameter types of the constructor that takes the fields, if there is one. -/
  arguments : Option (List String)
  members : List String
  deriving DecidableEq

def Binding.ofSchema (s : Schema) (suffix : String) : Binding where
  function := s.bindingFunction
  qualifiedName := s.qualifiedName
  scriptName := s.name ++ suffix
  arguments := if s.fields = [] then none else some (s.fields.map fun f => f.passing.spell f.type)
  members := s.fields.map Field.name

end EntityGen

namespace EntityGen.Binding

open Listing (includeLine)

def moduleHeader : String := "chaiscript/chaiscript.hpp"

def declaration (function : String) : String :=
  "void " ++ function ++ "(chaiscript::ModulePtr m);"

def opening (qualifier function : String) : String :=
  "void " ++ qualifier ++ function ++ "(chaiscript::ModulePtr m) \x7b\n"

def constructorText (type arguments : String) : String :=
  "chaiscript::constructor<" ++ type ++ "(" ++ arguments ++ ")>()"

def memberText (type member : String) : String :=
  "            \x7b chaiscript::fun(&" ++ type ++ "::" ++ member ++ "), \"" ++ member ++ "\" \x7d"

def constructorTexts (b : Binding) : List String :=
  constructorText b.qualifiedName "" ::
    (b.arguments.map fun as => constructorText b.qualifiedName (", ".intercalate as)).toList

/-- A registration function; `qualifier` names its namespace. -/
def body (b : Binding) (qualifier : String) : String :=
  let members := ",\n".intercalate (b.members.map (memberText b.qualifiedName))
  opening qualifier b.function ++
    "    chaiscript::utility::add_class<" ++ b.qualifiedName ++ ">(\n        *m,\n        \"" ++
    b.scriptName ++ "\",\n        \x7b " ++ ",\n          ".intercalate b.constructorTexts ++
    " \x7d,\n" ++
    (if members = "" then "        \x7b\x7d\n"
      else "        \x7b\n" ++ members ++ "\n        \x7d\n") ++
    "    );\n\x7d\n"

def combinedDeclaration : String := declaration combinedFunction

def callLine (function : String) : String := "    " ++ function ++ "(m);\n"

def combinedBody (functions : List String) (qualifier : String) : String :=
  opening qualifier combinedFunction ++ .join (functions.map callLine) ++ "\x7d\n"

def headerText (marker : String) (includes : List String) (ns : String)
    (declarations : List String) : String :=
  let body := "\n".intercalate declarations ++ "\n"
  preamble marker ++ includeLine moduleHeader ++ .join (includes.map includeLine) ++ "\n" ++
    (if ns = "" then body else Namespace.block ns body)

def sourceText (marker header : String) (includes bodies : List String) : String :=
  marker ++ "\n" ++ includeLine header ++ "\n" ++
    (if includes = [] then "" else .join (includes.map includeLine) ++ "\n") ++
    "\n".intercalate bodies

end EntityGen.Binding

namespace EntityGen.Binding

structure Entry where
  binding : Binding
  /-- The generated file, as binding code includes it. -/
  includePath : String
  deriving DecidableEq

/-- The entities that scripts are told of, in the order in which they came. The first entity with a
qualified name has it, and so has the first with a function name. -/
structure Registry where
  scope : String
  classSuffix : String
  entries : List Entry := []
  /-- The qualified names that are taken. -/
  registered : List String := []
  /-- The function names that are taken, each with the qualified name that has it. -/
  functions : List (String × String) := []
  deriving DecidableEq

namespace Registry

variable (r : Registry)

def qualifier : String := Namespace.qualifier r.scope

def declarationOf (e : Entry) : String := declaration e.binding.function

def bodyOf (e : Entry) : String := body e.binding r.qualifier

def take (b : Binding) (path : Path) : Registry :=
  { r with
    entries := r.entries ++ [⟨b, path.includeText⟩]
    registered := r.registered ++ [b.qualifiedName]
    functions := r.functions ++ [(b.function, b.qualifiedName)] }

def register (s : Schema) (path : Path) : Except Failure Registry :=
  let b := Binding.ofSchema s r.classSuffix
  if b.qualifiedName ∈ r.registered then .error (.duplicateBinding b.qualifiedName path)
  else match r.functions.lookup b.function with
  | some existing => .error (.bindingNameClash b.function b.qualifiedName existing path)
  | none => .ok (r.take b path)

def functionNames : List String := r.entries.map (·.binding.function)

def includes : List String := r.entries.map (·.includePath)

def combined : String × String :=
  (combinedDeclaration, combinedBody r.functionNames r.qualifier)

def header (marker : String) : String :=
  headerText marker r.includes r.scope (r.entries.map declarationOf ++ [r.combined.1])

/-- The source includes the header by its file name. -/
def source (marker : String) (header : Path) : String :=
  sourceText marker (header.fileName?.getD header.includeText) r.includes
    (r.entries.map r.bodyOf ++ [r.combined.2])

def files (marker : String) (header source : Path) : List (Path × String) :=
  [(header, r.header marker), (source, r.source marker header)]

end Registry

end EntityGen.Binding
