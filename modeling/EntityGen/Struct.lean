import EntityGen.Schema
import EntityGen.Config.Basic
import EntityGen.Path

namespace EntityGen.Namespace

/-- The text between separators, read from the left; there is always a first segment. -/
def segments : List Char → List (List Char)
  | ':' :: ':' :: cs => [] :: segments cs
  | c :: cs => (segments cs).modifyHead (c :: ·)
  | [] => [[]]

/-- The segments that hold anything, joined to a piece of an identifier. -/
def mangle (ns : String) : String :=
  "_".intercalate (((segments ns.toList).filter (· ≠ [])).map String.ofList)

def qualifier (ns : String) : String := if ns = "" then "" else ns ++ "::"

def block (ns body : String) : String :=
  "namespace " ++ ns ++ " \x7b\n\n" ++ body ++ "\n\x7d  // namespace " ++ ns ++ "\n"

def wrap (body : String) : Option String → String
  | some ns => block ns body
  | none => body

end EntityGen.Namespace

namespace EntityGen

inductive Passing
  | byValue
  | byConstRef
  deriving DecidableEq

def Field.passing (f : Field) : Passing := if f.copyable then .byValue else .byConstRef

/-- A parameter's name keeps clear of the member it sets. -/
def paramName (field : String) : String := field ++ "_"

namespace Struct

structure Member where
  type : String
  name : String
  deriving DecidableEq

structure Param where
  type : String
  name : String
  passing : Passing
  deriving DecidableEq

/-- `member(value)`; an empty value value-initializes. -/
structure Initializer where
  member : String
  value : String
  deriving DecidableEq

inductive ConstructorKind
  | default
  | fieldList
  deriving DecidableEq

structure Constructor where
  kind : ConstructorKind
  /-- Never an implicit conversion. -/
  explicit : Bool
  params : List Param
  initializers : List Initializer
  deriving DecidableEq

end Struct

structure Struct where
  name : String
  scope : Option String
  includes : List String
  members : List Struct.Member
  constructors : List Struct.Constructor
  deriving DecidableEq

namespace Struct

def defaultOf (fields : List Field) : Constructor where
  kind := .default
  explicit := false
  params := []
  initializers := fields.map fun f => ⟨f.name, f.initial.getD ""⟩

def fieldListOf (fields : List Field) : Constructor where
  kind := .fieldList
  explicit := fields.length = 1
  params := fields.map fun f => ⟨f.type, paramName f.name, f.passing⟩
  initializers := fields.map fun f => ⟨f.name, paramName f.name⟩

/-- Only an entity with fields has a constructor that takes them. -/
def constructorsOf (fields : List Field) : List Constructor :=
  if fields = [] then [defaultOf fields] else [defaultOf fields, fieldListOf fields]

def ofSchema (s : Schema) : Struct where
  name := s.name
  scope := s.scope
  includes := s.includes
  members := s.fields.map fun f => ⟨f.type, f.name⟩
  constructors := constructorsOf s.fields

def constructor? (s : Struct) (k : ConstructorKind) : Option Constructor :=
  s.constructors.find? (·.kind = k)

end Struct

end EntityGen

namespace EntityGen

def preamble (marker : String) : String := marker ++ "\n#pragma once\n\n"

def Passing.spell (p : Passing) (type : String) : String :=
  match p with
  | byValue => type
  | byConstRef => "const " ++ type ++ "&"

namespace Struct

def Param.text (p : Param) : String := p.passing.spell p.type ++ " " ++ p.name

def Initializer.text (i : Initializer) : String := i.member ++ "(" ++ i.value ++ ")"

def Constructor.text (c : Constructor) (struct : String) : String :=
  let initializers := ", ".intercalate (c.initializers.map Initializer.text)
  (if c.explicit then "explicit " else "") ++
    struct ++ "(" ++ ", ".intercalate (c.params.map Param.text) ++ ")" ++
    (if initializers = "" then "" else " : " ++ initializers) ++ " \x7b\x7d"

def Member.line (m : Member) : String := "    " ++ m.type ++ " " ++ m.name ++ ";\n"

def text (s : Struct) : String :=
  "struct " ++ s.name ++ " \x7b\n" ++
    .join (s.constructors.map fun c => "    " ++ c.text s.name ++ "\n") ++
    (if s.members = [] then "" else "\n" ++ .join (s.members.map Member.line)) ++ "\x7d;\n"

def includeLine (name : String) : String := "#include <" ++ name ++ ">\n"

def header (s : Struct) (marker : String) : String :=
  preamble marker ++
    (if s.includes = [] then "" else .join (s.includes.map includeLine) ++ "\n") ++
    Namespace.wrap s.text s.scope

end Struct

end EntityGen

namespace EntityGen

structure Entity where
  name : String
  qualifiedName : String
  output : Path
  text : String
  xlists : List XListDirective
  includeIn : List String
  wantsBindings : Bool
  deriving DecidableEq

def Entity.ofSchema (c : Config) (s : Schema) (output : Path) : Entity where
  name := s.name
  qualifiedName := s.qualifiedName
  output := output
  text := (Struct.ofSchema s).header c.marker
  xlists := s.xlists
  includeIn := s.includeIn
  wantsBindings := s.wants c.bindingFlag

end EntityGen
