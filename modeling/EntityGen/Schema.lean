import EntityGen.Text.Basic
import EntityGen.Json.Value
import EntityGen.Json.Reader
import EntityGen.Text.Quoted

namespace EntityGen

def copyableTypes : List String :=
  ["bool", "char", "signed char", "unsigned char", "short", "unsigned short", "int", "unsigned",
    "unsigned int", "long", "unsigned long", "long long", "unsigned long long", "float", "double",
    "long double", "size_t", "std::size_t", "int8_t", "int16_t", "int32_t", "int64_t", "uint8_t",
    "uint16_t", "uint32_t", "uint64_t", "std::int8_t", "std::int16_t", "std::int32_t",
    "std::int64_t", "std::uint8_t", "std::uint16_t", "std::uint32_t", "std::uint64_t"]

def isCopyable (type : String) : Bool := Text.trim type ∈ copyableTypes

structure Field where
  name : String
  type : String
  /-- What the default constructor initializes it with. -/
  initial : Option String := none
  copyable : Bool := isCopyable type
  deriving DecidableEq

structure XListDirective where
  list : String
  target : String
  deriving DecidableEq

def insertFlag (x : String) : List String → List String
  | [] => [x]
  | y :: ys => if x < y then x :: y :: ys else if x = y then y :: ys else y :: insertFlag x ys

/-- The flags in order, each once. -/
def flagSet (flags : List String) : List String := flags.foldr insertFlag []

theorem mem_insertFlag {x y : String} {l : List String} : y ∈ insertFlag x l ↔ y = x ∨ y ∈ l := by
  fun_induction insertFlag x l <;> grind

theorem mem_flagSet {x : String} {l : List String} : x ∈ flagSet l ↔ x ∈ l := by
  induction l with
  | nil => simp [flagSet]
  | cons y ys ih => rw [flagSet, List.foldr_cons, mem_insertFlag, ← flagSet, ih, List.mem_cons]

structure Schema where
  name : String
  /-- The namespace; the global one if there is none. -/
  scope : Option String := none
  fields : List Field := []
  /-- What the generated header needs. -/
  includes : List String := []
  flags : List String := []
  xlists : List XListDirective := []
  /-- Files that are to include the generated header. -/
  includeIn : List String := []
  deriving DecidableEq

def Schema.qualifiedName (s : Schema) : String :=
  match s.scope with
  | some ns => ns ++ "::" ++ s.name
  | none => s.name

def Schema.wants (s : Schema) (flag : String) : Bool := flag ∈ s.flags

end EntityGen

namespace EntityGen.Schema

open Json (Reader Fields Value textValue optionalText listOf)
open Text.Utf8 (Bytes)

structure FieldEntry where
  name : Option String := none
  type : Option String := none
  initial : Value := .null
  deriving DecidableEq

structure Document where
  name : Option String := none
  scope : Option String := none
  data : List FieldEntry := []
  includes : List String := []
  flags : List String := []
  xlisted : List (List String) := []
  includeIn : List String := []
  deriving DecidableEq

/-- How many lists and records may be open at once. -/
def depthLimit : Nat := 127

/-- A default stands inside the document, the list of fields and the field. -/
def fieldEntryFields : Fields FieldEntry :=
  [("name", fun f => optionalText.map fun v => { f with name := v }),
    ("type", fun f => optionalText.map fun v => { f with type := v }),
    ("default", fun f => (Json.value (depthLimit - 3)).map fun v => { f with initial := v })]

def documentFields : Fields Document :=
  [("name", fun d => optionalText.map fun v => { d with name := v }),
    ("namespace", fun d => optionalText.map fun v => { d with scope := v }),
    ("data", fun d => (listOf (Json.record fieldEntryFields {})).map fun v => { d with data := v }),
    ("include", fun d => (listOf textValue).map fun v => { d with includes := v }),
    ("generate", fun d => (listOf textValue).map fun v => { d with flags := v }),
    ("xlisted", fun d => (listOf (listOf textValue)).map fun v => { d with xlisted := v }),
    ("include_in", fun d => (listOf textValue).map fun v => { d with includeIn := v })]

def Document.read (s : Bytes) : Except Json.Fault Document :=
  Json.whole (Json.record documentFields {}) s

end EntityGen.Schema

namespace EntityGen.Schema

inductive FieldFault
  | noName
  | noType
  | compoundDefault
  deriving DecidableEq

def FieldFault.message : FieldFault → String
  | .noName => "missing `name`"
  | .noType => "missing `type`"
  | .compoundDefault => "`default` must be a string, number or bool"

inductive DirectiveFault
  /-- The entry is not a list name and a file name. -/
  | entry (texts : List String)
  | blankTarget
  deriving DecidableEq

def DirectiveFault.message : DirectiveFault → String
  | .entry texts => "xlisted entry must be [listName, fileName], got " ++ Text.quotedList texts
  | .blankTarget => "include_in entries cannot be empty"

inductive Error
  | json (fault : Json.Fault)
  | noName
  | field (index : Nat) (fault : FieldFault)
  | directive (fault : DirectiveFault)
  deriving DecidableEq

def Error.message : Error → String
  | .json f => "malformed schema: " ++ f.message
  | .noName => "schema is missing the required `name`"
  | .field i f => "invalid field at index " ++ toString i ++ ": " ++ f.message
  | .directive f => "invalid directive: " ++ f.message

end EntityGen.Schema

namespace EntityGen.Schema

open Text (trim allBlank)
open Text.Utf8 (Bytes)

/-- The text without white space around it, if anything is left. -/
def solid? (s : Option String) : Option String := (s.map trim).filter (· ≠ "")

def initialOf : Json.Value → Except FieldFault (Option String)
  | .null => .ok none
  | .text s => .ok (some s)
  | .number n => .ok (some n.text)
  | .bool b => .ok (some (if b then "true" else "false"))
  | .compound => .error .compoundDefault

def FieldEntry.validate (f : FieldEntry) : Except FieldFault Field :=
  match solid? f.name, solid? f.type with
  | none, _ => .error .noName
  | some _, none => .error .noType
  | some name, some type => (initialOf f.initial).map fun i => { name, type, initial := i }

def validateFields (index : Nat) : List FieldEntry → Except Error (List Field)
  | [] => .ok []
  | f :: fs =>
    match f.validate with
    | .error e => .error (.field index e)
    | .ok g => (validateFields (index + 1) fs).map (g :: ·)

def xlistDirective (texts : List String) : Except Error XListDirective :=
  match texts with
  | [list, target] =>
    if allBlank list ∨ allBlank target then .error (.directive (.entry texts))
    else .ok ⟨trim list, trim target⟩
  | _ => .error (.directive (.entry texts))

def validateXLists : List (List String) → Except Error (List XListDirective)
  | [] => .ok []
  | x :: xs => do
    let d ← xlistDirective x
    let ds ← validateXLists xs
    return d :: ds

/-- Names and types lose the white space around them; defaults, includes and the files to be included in
keep theirs. The first fault wins: the name, then the fields, the list directives and the include
directives, each in order. -/
def Document.validate (d : Document) : Except Error Schema :=
  match solid? d.name with
  | none => .error .noName
  | some name => do
    let fields ← validateFields 0 d.data
    let xlists ← validateXLists d.xlisted
    if d.includeIn.any allBlank then .error (.directive .blankTarget)
    else return {
      name, fields, xlists
      scope := solid? d.scope
      includes := d.includes
      flags := flagSet d.flags
      includeIn := d.includeIn }

def parse (s : Bytes) : Except Error Schema :=
  match Document.read s with
  | .error f => .error (.json f)
  | .ok d => d.validate

end EntityGen.Schema
