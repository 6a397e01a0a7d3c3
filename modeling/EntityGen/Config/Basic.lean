import EntityGen.Config.Table
import EntityGen.Text.Basic

namespace EntityGen

inductive Setting
  | marker
  | schemaExtension
  | outputExtension
  | bindingFlag
  | bindingNamespace
  | bindingClassSuffix
  | bindingHeader
  | bindingSource
  | manifestFile
  | manifestVariable
  deriving DecidableEq

namespace Setting

def all : List Setting :=
  [marker, schemaExtension, outputExtension, bindingFlag, bindingNamespace, bindingClassSuffix,
    bindingHeader, bindingSource, manifestFile, manifestVariable]

theorem mem_all (s : Setting) : s ∈ all := by cases s <;> decide

def key : Setting → String
  | marker => "marker"
  | schemaExtension => "schema_extension"
  | outputExtension => "output_extension"
  | bindingFlag => "binding_flag"
  | bindingNamespace => "binding_namespace"
  | bindingClassSuffix => "binding_class_suffix"
  | bindingHeader => "binding_header"
  | bindingSource => "binding_source"
  | manifestFile => "manifest_file"
  | manifestVariable => "manifest_variable"

def ofKey? (k : String) : Option Setting := all.find? (·.key = k)

end Setting

structure Config where
  /-- The first line of a generated file. A file that opens otherwise is never written over. -/
  marker : String := "// Auto-generated by cyan-codegen. DO NOT EDIT."
  schemaExtension : String := "json"
  outputExtension : String := "hpp"
  /-- The flag of a schema that asks for script bindings. -/
  bindingFlag : String := "chai_bindings"
  bindingNamespace : String := "cyan::generated"
  /-- What follows an entity's name in the name scripts know it by. -/
  bindingClassSuffix : String := "Component"
  bindingHeader : String := "chai_bindings.hpp"
  bindingSource : String := "chai_bindings.cpp"
  manifestFile : String := "CMakeLists.txt"
  manifestVariable : String := "CYAN_GENERATED_SRC"
  deriving DecidableEq

inductive ConfigError
  /-- The file is not a table of known settings. -/
  | table
  | emptyMarker
  | empty (s : Setting)
  | sameExtension
  | stated (text : String)
  deriving DecidableEq

def ConfigError.message : ConfigError → String
  | table => "the file is not a table of known settings"
  | emptyMarker => "generated-file marker cannot be empty"
  | empty s => s.key ++ " cannot be empty"
  | sameExtension => "schema_extension and output_extension must differ"
  | stated text => text

namespace Config

open Text (trim trimStart allBlank)

def get (c : Config) : Setting → String
  | .marker => c.marker
  | .schemaExtension => c.schemaExtension
  | .outputExtension => c.outputExtension
  | .bindingFlag => c.bindingFlag
  | .bindingNamespace => c.bindingNamespace
  | .bindingClassSuffix => c.bindingClassSuffix
  | .bindingHeader => c.bindingHeader
  | .bindingSource => c.bindingSource
  | .manifestFile => c.manifestFile
  | .manifestVariable => c.manifestVariable

def set (c : Config) (s : Setting) (v : String) : Config :=
  match s with
  | .marker => { c with marker := v }
  | .schemaExtension => { c with schemaExtension := v }
  | .outputExtension => { c with outputExtension := v }
  | .bindingFlag => { c with bindingFlag := v }
  | .bindingNamespace => { c with bindingNamespace := v }
  | .bindingClassSuffix => { c with bindingClassSuffix := v }
  | .bindingHeader => { c with bindingHeader := v }
  | .bindingSource => { c with bindingSource := v }
  | .manifestFile => { c with manifestFile := v }
  | .manifestVariable => { c with manifestVariable := v }

theorem get_set (c : Config) (s t : Setting) (v : String) :
    (c.set s v).get t = if t = s then v else c.get t := by
  cases s <;> cases t <;> rfl

/-- The defaults with `entries` in place; `none` at an unknown or a repeated key. -/
def ofEntries (entries : List (String × String)) : Option Config :=
  if (entries.map Prod.fst).Nodup then
    entries.foldlM (fun c e => (Setting.ofKey? e.1).map fun s => c.set s e.2) {}
  else none

def withoutDots (ext : String) : String := trimStart (· == '.') ext

def schemaExt (c : Config) : String := withoutDots c.schemaExtension

def outputExt (c : Config) : String := withoutDots c.outputExtension

def isCommentMark (ch : Char) : Bool := ch == '/' || ch == '*' || ch == '#'

def manifestMarker (c : Config) : String := "# " ++ trim (trimStart isCommentMark c.marker)

/-- Settings that must hold more than white space, besides the marker. -/
def required : List Setting :=
  [.schemaExtension, .outputExtension, .bindingHeader, .bindingSource, .manifestFile,
    .manifestVariable]

def validate (c : Config) : Except ConfigError Unit :=
  if allBlank c.marker then .error .emptyMarker
  else match required.find? (allBlank <| c.get ·) with
    | some s => .error (.empty s)
    | none => if c.schemaExt = c.outputExt then .error .sameExtension else .ok ()

def parse (text : String) : Except ConfigError Config :=
  match (Table.read text).bind ofEntries with
  | none => .error .table
  | some c => c.validate.map fun _ => c

variable {c : Config}

theorem validate_ok_iff : c.validate = .ok () ↔ Text.allBlank c.marker = false ∧
    (∀ s ∈ required, Text.allBlank (c.get s) = false) ∧ c.schemaExt ≠ c.outputExt := by
  rw [validate]
  cases hm : Text.allBlank c.marker with
  | true => simp
  | false =>
      cases hr : required.find? (Text.allBlank <| c.get ·) with
      | some s =>
          have hs := List.find?_some hr
          have hmem := List.mem_of_find?_eq_some hr
          simp only [Bool.false_eq_true, if_false, reduceCtorEq, false_iff, not_and]
          intro _ hall
          rw [hall s hmem] at hs
          cases hs
      | none =>
          have hall := List.find?_eq_none.1 hr
          by_cases he : c.schemaExt = c.outputExt
          · simp [he]
          · simpa [he] using hall

theorem marker_ne (h : c.validate = .ok ()) : c.marker ≠ "" := by
  intro hm
  have hb := (validate_ok_iff.1 h).1
  rw [hm] at hb
  cases hb

theorem manifestMarker_ne (c : Config) : c.manifestMarker ≠ "" := by
  intro h
  have := congrArg String.toList h
  simp [manifestMarker] at this

end Config

end EntityGen
