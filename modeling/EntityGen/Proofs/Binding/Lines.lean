import EntityGen.Proofs.Binding.FirstWins
import EntityGen.Proofs.Spelling
import EntityGen.Proofs.Text.Lines

namespace EntityGen

open Text

theorem oneLine_mangle {ns : String} (h : OneLine ns) : OneLine (Namespace.mangle ns) := by
  have hsegments : ∀ cs : List Char, '\n' ∉ cs → ∀ x ∈ Namespace.segments cs, '\n' ∉ x := by
    intro cs
    fun_induction Namespace.segments cs with
    | case1 cs ih => grind
    | case2 c cs _ ih =>
        intro hcs
        cases hs : Namespace.segments cs with
        | nil => simp
        | cons y ys => grind [List.modifyHead]
    | case3 => grind
  refine oneLine_intercalate (by decide) fun l hl => ?_
  obtain ⟨x, hx, rfl⟩ := List.mem_map.1 hl
  simpa only [OneLine, String.toList_ofList] using hsegments _ h x (List.mem_filter.1 hx).1

/-- What goes into the bindings of the entity is spelled on one line each. -/
structure Schema.OneLined (s : Schema) : Prop where
  name : OneLine s.name
  scope : ∀ ns ∈ s.scope, OneLine ns
  fields : ∀ f ∈ s.fields, OneLine f.name ∧ OneLine f.type

instance (s : Schema) : Decidable s.OneLined :=
  decidable_of_iff (OneLine s.name ∧ (∀ ns ∈ s.scope, OneLine ns) ∧
      ∀ f ∈ s.fields, OneLine f.name ∧ OneLine f.type)
    ⟨fun h => ⟨h.1, h.2.1, h.2.2⟩, fun h => ⟨h.name, h.scope, h.fields⟩⟩

namespace Schema.OneLined

variable {s : Schema} (h : s.OneLined)

include h

theorem bindingFunction : OneLine s.bindingFunction := by
  rw [Schema.bindingFunction]
  cases hs : s.scope with
  | none => simp [h.name]; decide
  | some ns => simp [h.name, oneLine_mangle (h.scope ns hs)]; decide

theorem qualifiedName : OneLine s.qualifiedName := by
  rw [Schema.qualifiedName]
  cases hs : s.scope with
  | none => exact h.name
  | some ns => simp [h.name, h.scope ns hs]; decide

end Schema.OneLined

namespace Path

variable {p : Path} (h : OneLine p.text)

include h

theorem oneLine_includeText : OneLine p.includeText := by
  simp only [OneLine, includeText, String.toList_ofList, List.mem_map, not_exists, not_and]
  intro c hc he
  split at he
  · exact absurd he (by decide)
  · exact h (he ▸ hc)

theorem oneLine_fileName {n : String} (hn : p.fileName? = some n) : OneLine n := by
  have hlast : p.components.getLast? = some (.name n) := by
    rw [fileName?] at hn
    split at hn
    next m hm => rw [hm, Option.some.inj hn]
    · cases hn
  rcases List.mem_append.1 (List.mem_of_getLast? hlast) with hl | hp
  · cases hlead : p.lead <;> simp [hlead, Lead.components] at hl
  · obtain ⟨x, hx, hc⟩ := List.mem_filterMap.1 hp
    simp only [component?] at hc
    split at hc
    · cases hc
    · split at hc
      · cases hc
      · cases hc
        simpa only [OneLine, String.toList_ofList] using fun hm => h (piece_subset hx hm)

end Path

namespace Binding

def IsDeclaration (l : String) : Prop := Spans "void " "(chaiscript::ModulePtr m);" l

def IsDefinition (l : String) : Prop := Spans "void " "(chaiscript::ModulePtr m) \x7b" l

def IsCall (l : String) : Prop := Spans "    " "(m);" l

def IsInclude (l : String) : Prop := Spans "#include \"" "" l

instance (l : String) : Decidable (IsDeclaration l) := inferInstanceAs (Decidable (Spans _ _ _))

instance (l : String) : Decidable (IsDefinition l) := inferInstanceAs (Decidable (Spans _ _ _))

instance (l : String) : Decidable (IsCall l) := inferInstanceAs (Decidable (Spans _ _ _))

instance (l : String) : Decidable (IsInclude l) := inferInstanceAs (Decidable (Spans _ _ _))

variable {l : String}

theorem IsDeclaration.head (h : IsDeclaration l) : l.toList.head? = some 'v' :=
  Spans.head h (by decide)

theorem IsDefinition.head (h : IsDefinition l) : l.toList.head? = some 'v' :=
  Spans.head h (by decide)

theorem IsCall.head (h : IsCall l) : l.toList.head? = some ' ' :=
  Spans.head h (by decide)

theorem IsCall.last (h : IsCall l) : l.toList.getLast? = some ';' := by
  obtain ⟨t, ht⟩ := h.ends
  rw [← ht]
  simp

theorem IsInclude.head (h : IsInclude l) : l.toList.head? = some '#' :=
  Spans.head h (by decide)

@[simp]
theorem not_isDeclaration (h : l.toList.head? ≠ some 'v') : ¬ IsDeclaration l := mt IsDeclaration.head h

@[simp]
theorem not_isDefinition (h : l.toList.head? ≠ some 'v') : ¬ IsDefinition l := mt IsDefinition.head h

@[simp]
theorem not_isCall (h : l.toList.head? ≠ some ' ') : ¬ IsCall l := mt IsCall.head h

@[simp]
theorem not_isInclude (h : l.toList.head? ≠ some '#') : ¬ IsInclude l := mt IsInclude.head h

def inclusion (path : String) : String := "#include \"" ++ path ++ "\""

def definition (qualifier function : String) : String :=
  "void " ++ qualifier ++ function ++ "(chaiscript::ModulePtr m) \x7b"

def call (function : String) : String := "    " ++ function ++ "(m);"

def constructorLines (b : Binding) : List String :=
  match b.arguments with
  | none => ["        \x7b " ++ constructorText b.qualifiedName "" ++ " \x7d,"]
  | some as =>
    ["        \x7b " ++ constructorText b.qualifiedName "" ++ ",",
      "          " ++ constructorText b.qualifiedName (", ".intercalate as) ++ " \x7d,"]

def memberLines (b : Binding) : List String :=
  if b.members = [] then ["        \x7b\x7d"]
  else "        \x7b" :: carried "," (b.members.map (memberText b.qualifiedName)) ++ ["        \x7d"]

/-- The lines of a registration function after the one that opens it. -/
def registration (b : Binding) : List String :=
  ["    chaiscript::utility::add_class<" ++ b.qualifiedName ++ ">(", "        *m,",
    "        \"" ++ b.scriptName ++ "\","] ++
  constructorLines b ++ memberLines b ++ ["    );", "\x7d"]

def functionLines (qualifier : String) (b : Binding) : List String :=
  definition qualifier b.function :: registration b

theorem constructors_ended (b : Binding) :
    "        \x7b " ++ ",\n          ".intercalate b.constructorTexts ++ " \x7d,\n" =
      ended (constructorLines b) := by
  rw [constructorTexts, constructorLines, ← String.toList_inj]
  cases b.arguments with
  | none => simp
  | some as => simp [String.intercalate_cons_cons]

theorem memberText_ne (type member : String) : memberText type member ≠ "" := by
  unfold memberText
  simp

theorem members_ended (b : Binding) :
    (if ",\n".intercalate (b.members.map (memberText b.qualifiedName)) = "" then "        \x7b\x7d\n"
      else "        \x7b\n" ++ ",\n".intercalate (b.members.map (memberText b.qualifiedName)) ++
        "\n        \x7d\n") = ended (memberLines b) := by
  rw [memberLines]
  by_cases h : b.members = []
  · rw [if_pos h, h, List.map_nil, String.intercalate_nil, if_pos rfl]
    decide
  · have hne : b.members.map (memberText b.qualifiedName) ≠ [] := by simpa using h
    have htext : ",\n".intercalate (b.members.map (memberText b.qualifiedName)) ≠ "" := by
      obtain ⟨m, ms, hms⟩ := List.exists_cons_of_ne_nil h
      rw [hms]
      cases ms <;> simp [String.intercalate_cons_cons, memberText_ne]
    have hsep : ",\n" = "," ++ "\n" := by decide
    rw [if_neg h, if_neg htext, List.cons_append, ended_cons, ended_append, ← carried_ended hne, ← hsep,
      ← String.toList_inj]
    simp

theorem body_ended (b : Binding) (qualifier : String) :
    body b qualifier = ended (functionLines qualifier b) := by
  simp only [body]
  rw [members_ended, functionLines, registration, ended_cons, ended_append, ended_append, ended_append,
    ← constructors_ended, opening, definition, ← String.toList_inj]
  simp

theorem combinedBody_ended (functions : List String) (qualifier : String) :
    combinedBody functions qualifier =
      ended (definition qualifier combinedFunction :: functions.map call ++ ["\x7d"]) := by
  have hcalls : functions.map callLine = (functions.map call).map (· ++ "\n") := by
    rw [List.map_map]
    exact List.map_congr_left fun f _ => by simp [callLine, call, ← String.toList_inj]
  rw [combinedBody, hcalls, ← ended, List.cons_append, ended_cons, ended_append, opening, definition,
    ← String.toList_inj]
  simp

theorem includes_ended (includes : List String) :
    .join (includes.map Listing.includeLine) = ended (includes.map inclusion) := by
  rw [ended, List.map_map]
  congr 1
  exact List.map_congr_left fun p _ => by simp [Listing.includeLine, inclusion, ← String.toList_inj]

def headerLines (marker ns : String) (includes ds : List String) : List String :=
  [marker, "#pragma once", "", inclusion moduleHeader] ++ includes.map inclusion ++ [""] ++
    if ns = "" then ds else ["namespace " ++ ns ++ " \x7b", ""] ++ ds ++ ["", "\x7d  // namespace " ++ ns]

theorem headerText_ended (marker ns : String) (includes : List String) {ds : List String} (h : ds ≠ []) :
    headerText marker includes ns ds = ended (headerLines marker ns includes ds) := by
  simp only [headerText, includes_ended, intercalate_lines h]
  rw [headerLines, ← String.toList_inj]
  split
  · simp [preamble, Listing.includeLine, inclusion]
  · simp [preamble, Listing.includeLine, inclusion, Namespace.block]

def sourceLines (marker header : String) (includes : List String) (bodies : List (List String)) :
    List String :=
  [marker, inclusion header, ""] ++ (if includes = [] then [] else includes.map inclusion ++ [""]) ++
    bodies.flatMap (· ++ [""])

theorem sourceText_ended (marker header : String) (includes entry : List String)
    (bodies : List (List String)) : sourceText marker header includes (bodies.map ended ++ [ended entry]) =
      ended (sourceLines marker header includes bodies ++ entry) := by
  rw [← List.map_singleton, ← List.map_append, sourceText, intercalate_ended, intercalate_concat,
    includes_ended, sourceLines, ← String.toList_inj]
  split
  · simp [Listing.includeLine, inclusion]
  · simp [Listing.includeLine, inclusion]

/-- How the lines inside a registration function begin and end: as no definition does, no call, and no
line that includes a file. -/
def IsInner (l : String) : Prop :=
  (l.toList.head? = some ' ' ∨ l.toList.head? = some '\x7d') ∧
    (l.toList.getLast? ≠ some ';' ∨ l = "    );")

theorem IsInner.not_definition (h : IsInner l) : ¬ IsDefinition l := by
  intro hl
  have := hl.head
  rcases h.1 with he | he <;> simp [he] at this

theorem IsInner.not_include (h : IsInner l) : ¬ IsInclude l := by
  intro hl
  have := hl.head
  rcases h.1 with he | he <;> simp [he] at this

theorem IsInner.not_call (h : IsInner l) : ¬ IsCall l := by
  intro hl
  rcases h.2 with he | rfl
  · exact he hl.last
  · exact absurd hl (by decide)

theorem carried_inner {ls : List String} (h : ∀ l ∈ ls, l.toList.head? = some ' ')
    (hl : ∀ l ∈ ls, l.toList.getLast? ≠ some ';') : ∀ l ∈ carried "," ls, IsInner l := by
  intro l hmem
  obtain ⟨m, hm, rfl | rfl⟩ := mem_carried hmem
  · exact ⟨.inl (h l hm), .inl (hl l hm)⟩
  · simp [IsInner, h m hm]

theorem constructorLines_inner (b : Binding) : ∀ l ∈ constructorLines b, IsInner l := by
  rw [constructorLines]
  cases b.arguments <;> simp [IsInner, List.getLast?_cons]

theorem memberLines_inner (b : Binding) : ∀ l ∈ memberLines b, IsInner l := by
  have hmembers : ∀ l ∈ carried "," (b.members.map (memberText b.qualifiedName)), IsInner l := by
    refine carried_inner (fun l hl => ?_) fun l hl => ?_
    all_goals
      obtain ⟨m, -, rfl⟩ := List.mem_map.1 hl
      unfold memberText
      simp [List.getLast?_cons]
  rw [memberLines]
  split
  · simp [IsInner]
  · rw [List.cons_append, List.forall_mem_cons, List.forall_mem_append]
    exact ⟨by simp [IsInner], hmembers, by simp [IsInner]⟩

theorem registration_inner (b : Binding) : ∀ l ∈ registration b, IsInner l := by
  simp only [registration, List.forall_mem_append]
  refine ⟨⟨⟨?_, constructorLines_inner b⟩, memberLines_inner b⟩, by simp [IsInner]⟩
  simp [IsInner, List.getLast?_cons]

@[simp]
theorem isDeclaration_declaration (f : String) : IsDeclaration (declaration f) := spans_append _ _ _

@[simp]
theorem isDefinition_definition (q f : String) : IsDefinition (definition q f) := by
  simpa only [IsDefinition, definition, String.append_assoc] using
    spans_append "void " (q ++ f) "(chaiscript::ModulePtr m) \x7b"

@[simp]
theorem isCall_call (f : String) : IsCall (call f) := spans_append _ _ _

@[simp]
theorem isInclude_inclusion (p : String) : IsInclude (inclusion p) := by
  constructor <;> simp [inclusion]

@[simp]
theorem head_declaration (f : String) : (declaration f).toList.head? = some 'v' :=
  (isDeclaration_declaration f).head

@[simp]
theorem head_definition (q f : String) : (definition q f).toList.head? = some 'v' :=
  (isDefinition_definition q f).head

@[simp]
theorem head_call (f : String) : (call f).toList.head? = some ' ' := (isCall_call f).head

@[simp]
theorem head_inclusion (p : String) : (inclusion p).toList.head? = some '#' := (isInclude_inclusion p).head

section

variable {marker : String} (hm : marker.toList.head? = some '/') (ns header qualifier : String)
  (includes fs : List String) (bs : List Binding)

theorem filter_functions {p : String → Bool} (hblank : p "" = false)
    (hinner : ∀ l, IsInner l → p l = false) :
    ((bs.map (functionLines qualifier)).flatMap (· ++ [""])).filter p =
      (bs.map fun b => definition qualifier b.function).filter p := by
  induction bs with
  | nil => rfl
  | cons b bs ih =>
      have hrest : (registration b).filter p = [] :=
        List.filter_eq_nil_iff.2 fun l hl => by simp [hinner l (registration_inner b l hl)]
      rw [List.map_cons, List.flatMap_cons, List.filter_append, ih, List.map_cons, functionLines,
        List.cons_append, List.filter_cons, List.filter_append, hrest]
      split <;> simp [*]

include hm

theorem headerLines_declarations :
    (headerLines marker ns includes (fs.map declaration)).filter IsDeclaration = fs.map declaration := by
  have hpragma : ¬ IsDeclaration "#pragma once" := by decide
  rw [headerLines]
  split <;> simp [List.filter_map, Function.comp_def, hm, hpragma]

theorem headerLines_includes : (headerLines marker ns includes (fs.map declaration)).filter IsInclude =
    inclusion moduleHeader :: includes.map inclusion := by
  have hpragma : ¬ IsInclude "#pragma once" := by decide
  rw [headerLines]
  split <;> simp [List.filter_map, Function.comp_def, hm, hpragma]

theorem sourceLines_definitions :
    (sourceLines marker header includes (bs.map (functionLines qualifier))).filter IsDefinition =
      bs.map fun b => definition qualifier b.function := by
  rw [sourceLines, List.filter_append, filter_functions _ _ (by simp)
    fun l hl => by simp [hl.not_definition]]
  split <;> simp [List.filter_map, Function.comp_def, hm]

theorem sourceLines_calls :
    (sourceLines marker header includes (bs.map (functionLines qualifier))).filter IsCall = [] := by
  rw [sourceLines, List.filter_append, filter_functions _ _ (by simp) fun l hl => by simp [hl.not_call]]
  split <;> simp [List.filter_map, Function.comp_def, hm]

theorem sourceLines_includes :
    (sourceLines marker header includes (bs.map (functionLines qualifier))).filter IsInclude =
      inclusion header :: includes.map inclusion := by
  rw [sourceLines, List.filter_append, filter_functions _ _ (by simp) fun l hl => by simp [hl.not_include]]
  split
  next h => simp [List.filter_map, Function.comp_def, hm, h]
  · simp [List.filter_map, Function.comp_def, hm]

end

section

variable {marker ns header qualifier : String} {includes fs : List String} {b : Binding} {bs : List Binding}

theorem oneLine_qualifier (h : OneLine ns) : OneLine (Namespace.qualifier ns) := by
  rw [Namespace.qualifier]
  split
  · decide
  · simp [h]; decide

theorem oneLine_inclusion {p : String} (h : OneLine p) : OneLine (inclusion p) := by
  simp [inclusion, h]; decide

theorem oneLine_definition {f : String} (hq : OneLine qualifier) (hf : OneLine f) :
    OneLine (definition qualifier f) := by
  simp [definition, hq, hf]; decide

theorem constructorLines_oneLine (hname : OneLine b.qualifiedName)
    (harguments : ∀ as ∈ b.arguments, ∀ a ∈ as, OneLine a) : ∀ l ∈ constructorLines b, OneLine l := by
  have hconstructor : ∀ as : String, OneLine as → OneLine (constructorText b.qualifiedName as) := by
    intro as has
    unfold constructorText
    simp [hname, has]; decide
  have hempty := hconstructor "" (by decide)
  rw [constructorLines]
  cases ha : b.arguments with
  | none => simp [hempty]; decide
  | some as =>
      have hfull := hconstructor _ (oneLine_intercalate (a := ", ") (by decide) (harguments as ha))
      simp [hempty, hfull]; decide

theorem memberLines_oneLine (hname : OneLine b.qualifiedName) (hmembers : ∀ m ∈ b.members, OneLine m) :
    ∀ l ∈ memberLines b, OneLine l := by
  have hm : ∀ l ∈ b.members.map (memberText b.qualifiedName), OneLine l := by
    refine List.forall_mem_map.2 fun m hm => ?_
    unfold memberText
    simp [hname, hmembers m hm]; decide
  rw [memberLines]
  split
  · decide
  · rw [List.cons_append, List.forall_mem_cons, List.forall_mem_append]
    exact ⟨by decide, carried_oneLine (by decide) hm, by decide⟩

theorem registration_oneLine (hname : OneLine b.qualifiedName) (hscript : OneLine b.scriptName)
    (harguments : ∀ as ∈ b.arguments, ∀ a ∈ as, OneLine a) (hmembers : ∀ m ∈ b.members, OneLine m) :
    ∀ l ∈ registration b, OneLine l := by
  simp only [registration, List.forall_mem_append]
  refine ⟨⟨⟨?_, constructorLines_oneLine hname harguments⟩, memberLines_oneLine hname hmembers⟩, by decide⟩
  simp [hname, hscript]; decide

theorem headerLines_oneLine (hm : OneLine marker) (hns : OneLine ns) (hi : ∀ p ∈ includes, OneLine p)
    (hf : ∀ f ∈ fs, OneLine f) :
    ∀ l ∈ headerLines marker ns includes (fs.map declaration), OneLine l := by
  have hincludes : ∀ l ∈ includes.map inclusion, OneLine l :=
    List.forall_mem_map.2 fun p hp => oneLine_inclusion (hi p hp)
  have hdeclarations : ∀ l ∈ fs.map declaration, OneLine l := by
    refine List.forall_mem_map.2 fun f hmem => ?_
    simp [declaration, hf f hmem]; decide
  simp only [headerLines, List.forall_mem_append]
  refine ⟨⟨⟨?_, hincludes⟩, by decide⟩, ?_⟩
  · simp [hm, oneLine_inclusion (show OneLine moduleHeader by decide)]; decide
  · split
    · exact hdeclarations
    · simp only [List.forall_mem_append]
      refine ⟨⟨?_, hdeclarations⟩, ?_⟩
      · simp [hns]; decide
      · simp [hns]; decide

theorem sourceLines_oneLine (hm : OneLine marker) (hh : OneLine header) (hi : ∀ p ∈ includes, OneLine p)
    (hb : ∀ b ∈ bs, ∀ l ∈ functionLines qualifier b, OneLine l) :
    ∀ l ∈ sourceLines marker header includes (bs.map (functionLines qualifier)), OneLine l := by
  have hincludes : ∀ l ∈ includes.map inclusion, OneLine l :=
    List.forall_mem_map.2 fun p hp => oneLine_inclusion (hi p hp)
  simp only [sourceLines, List.forall_mem_append]
  refine ⟨⟨?_, ?_⟩, ?_⟩
  · simp [hm, oneLine_inclusion hh]; decide
  · split
    · simp
    · exact List.forall_mem_append.2 ⟨hincludes, by decide⟩
  · refine List.forall_mem_flatMap.2 (List.forall_mem_map.2 fun b hmem => ?_)
    exact List.forall_mem_append.2 ⟨hb b hmem, by decide⟩

end

theorem functionLines_oneLine {s : Schema} {suffix qualifier : String} (h : s.OneLined)
    (hsuffix : OneLine suffix) (hq : OneLine qualifier) :
    ∀ l ∈ functionLines qualifier (.ofSchema s suffix), OneLine l := by
  have harguments : ∀ as ∈ (Binding.ofSchema s suffix).arguments, ∀ a ∈ as, OneLine a := by
    intro as has
    simp only [Binding.ofSchema] at has
    split at has
    · cases has
    · cases has
      refine List.forall_mem_map.2 fun f hf => ?_
      cases f.passing
      · exact (h.fields f hf).2
      · simp [Passing.spell, (h.fields f hf).2]; decide
  exact List.forall_mem_cons.2 ⟨oneLine_definition hq h.bindingFunction,
    registration_oneLine h.qualifiedName (oneLine_append.2 ⟨h.name, hsuffix⟩) harguments
      (List.forall_mem_map.2 fun f hf => (h.fields f hf).1)⟩

/-- The two files of a module, read line by line: the same functions in the same order, and the entry point
last. It alone calls them, and it comes after all that it calls. Both files include the headers of all
entities. -/
structure Agree (qualifier headerName : String) (fs includes : List String) (header source : String) :
    Prop where
  declarations : (lines header).filter IsDeclaration = (fs ++ [combinedFunction]).map declaration
  definitions : (lines source).filter IsDefinition = (fs ++ [combinedFunction]).map (definition qualifier)
  calls : ∃ before after, lines source = before ++ definition qualifier combinedFunction :: after ∧
    before.filter IsCall = [] ∧ after.filter IsDefinition = [] ∧ after.filter IsCall = fs.map call
  headerIncludes : (lines header).filter IsInclude = (moduleHeader :: includes).map inclusion
  sourceIncludes : (lines source).filter IsInclude = (headerName :: includes).map inclusion

namespace Registry

variable {r : Registry} {scope suffix marker : String} {kept : List (Schema × Path)}

theorem Keeps.header_eq (h : r.Keeps scope suffix kept) (marker : String) :
    r.header marker = ended (headerLines marker scope (kept.map (·.2.includeText))
      ((kept.map (·.1.bindingFunction) ++ [combinedFunction]).map declaration)) := by
  have hdeclarations : r.entries.map declarationOf = (kept.map (·.1.bindingFunction)).map declaration := by
    rw [h.entries, List.map_map, List.map_map]
    rfl
  rw [← headerText_ended _ _ _ (by simp), Registry.header, h.includes, h.scope, hdeclarations, List.map_append]
  rfl

theorem Keeps.source_eq (h : r.Keeps scope suffix kept) (marker : String) (header : Path) :
    r.source marker header = ended (sourceLines marker (header.fileName?.getD header.includeText)
      (kept.map (·.2.includeText))
      ((kept.map fun c => Binding.ofSchema c.1 suffix).map (functionLines (Namespace.qualifier scope))) ++
      (definition (Namespace.qualifier scope) combinedFunction ::
        (kept.map (·.1.bindingFunction)).map call ++ ["\x7d"])) := by
  have hbodies : r.entries.map r.bodyOf = ((kept.map fun c => Binding.ofSchema c.1 suffix).map
      (functionLines (Namespace.qualifier scope))).map ended := by
    simp only [h.entries, List.map_map, Function.comp_def, bodyOf, body_ended, qualifier, h.scope]
  rw [← sourceText_ended, Registry.source, h.includes, hbodies, combined, h.functionNames,
    combinedBody_ended, qualifier, h.scope]

structure OneLined (scope suffix marker : String) (header : Path) (cs : List (Schema × Path)) : Prop where
  scope : OneLine scope
  suffix : OneLine suffix
  marker : OneLine marker
  header : OneLine header.text
  schemas : ∀ c ∈ cs, c.1.OneLined
  paths : ∀ c ∈ cs, OneLine c.2.text

instance (scope suffix marker : String) (header : Path) (cs : List (Schema × Path)) :
    Decidable (OneLined scope suffix marker header cs) :=
  decidable_of_iff (OneLine scope ∧ OneLine suffix ∧ OneLine marker ∧ OneLine header.text ∧
      (∀ c ∈ cs, c.1.OneLined) ∧ ∀ c ∈ cs, OneLine c.2.text)
    ⟨fun h => ⟨h.1, h.2.1, h.2.2.1, h.2.2.2.1, h.2.2.2.2.1, h.2.2.2.2.2⟩,
      fun h => ⟨h.scope, h.suffix, h.marker, h.header, h.schemas, h.paths⟩⟩

namespace OneLined

variable {header : Path} {cs : List (Schema × Path)} (h : OneLined scope suffix marker header cs)

include h

theorem functions : ∀ f ∈ cs.map (·.1.bindingFunction), OneLine f :=
  List.forall_mem_map.2 fun c hc => (h.schemas c hc).bindingFunction

theorem includes : ∀ p ∈ cs.map (·.2.includeText), OneLine p :=
  List.forall_mem_map.2 fun c hc => Path.oneLine_includeText (h.paths c hc)

theorem headerName : OneLine (header.fileName?.getD header.includeText) := by
  cases hn : header.fileName? with
  | none => exact Path.oneLine_includeText h.header
  | some n => exact Path.oneLine_fileName h.header hn

end OneLined

section

variable {header : Path} (h : r.Keeps scope suffix kept) (hl : OneLined scope suffix marker header kept)

include h hl

theorem Keeps.header_lines : lines (r.header marker) =
    headerLines marker scope (kept.map (·.2.includeText))
      ((kept.map (·.1.bindingFunction) ++ [combinedFunction]).map declaration) ++ [""] := by
  have hfs : ∀ f ∈ kept.map (·.1.bindingFunction) ++ [combinedFunction], OneLine f :=
    List.forall_mem_append.2 ⟨hl.functions, by decide⟩
  rw [h.header_eq, lines_ended (headerLines_oneLine hl.marker hl.scope hl.includes hfs)]

theorem Keeps.source_lines : lines (r.source marker header) =
    sourceLines marker (header.fileName?.getD header.includeText) (kept.map (·.2.includeText))
      ((kept.map fun c => Binding.ofSchema c.1 suffix).map (functionLines (Namespace.qualifier scope))) ++
      definition (Namespace.qualifier scope) combinedFunction ::
        ((kept.map (·.1.bindingFunction)).map call ++ ["\x7d", ""]) := by
  have hq : OneLine (Namespace.qualifier scope) := oneLine_qualifier hl.scope
  have hbodies : ∀ b ∈ kept.map fun c => Binding.ofSchema c.1 suffix,
      ∀ l ∈ functionLines (Namespace.qualifier scope) b, OneLine l :=
    List.forall_mem_map.2 fun c hc => functionLines_oneLine (hl.schemas c hc) hl.suffix hq
  have hcalls : ∀ l ∈ (kept.map (·.1.bindingFunction)).map call, OneLine l := by
    refine List.forall_mem_map.2 fun f hf => ?_
    simp [call, hl.functions f hf]; decide
  have hentry : ∀ l ∈ definition (Namespace.qualifier scope) combinedFunction ::
      (kept.map (·.1.bindingFunction)).map call ++ ["\x7d"], OneLine l :=
    List.forall_mem_append.2
      ⟨List.forall_mem_cons.2 ⟨oneLine_definition hq (by decide), hcalls⟩, by decide⟩
  rw [h.source_eq, lines_ended (List.forall_mem_append.2
    ⟨sourceLines_oneLine hl.marker hl.headerName hl.includes hbodies, hentry⟩)]
  simp

theorem Keeps.agree (hcomment : "//".toList <+: marker.toList) :
    Agree (Namespace.qualifier scope) (header.fileName?.getD header.includeText)
      (kept.map (·.1.bindingFunction)) (kept.map (·.2.includeText)) (r.header marker)
      (r.source marker header) := by
  have hhead : marker.toList.head? = some '/' := by
    obtain ⟨t, ht⟩ := hcomment
    rw [← ht]
    rfl
  have hclose : ¬ IsDefinition "\x7d" ∧ ¬ IsCall "\x7d" ∧ ¬ IsInclude "\x7d" := by decide
  refine ⟨?_, ?_, ⟨_, _, h.source_lines hl, sourceLines_calls hhead _ _ _ _, ?_, ?_⟩, ?_, ?_⟩
  · rw [h.header_lines hl, List.filter_append, headerLines_declarations hhead]
    simp
  · rw [h.source_lines hl, List.filter_append, sourceLines_definitions hhead]
    simp [List.filter_map, Function.comp_def, hclose]
    exact fun _ _ _ => rfl
  · simp [List.filter_map, Function.comp_def, hclose]
  · simp [List.filter_map, Function.comp_def, hclose]
  · rw [h.header_lines hl, List.filter_append, headerLines_includes hhead]
    simp
  · rw [h.source_lines hl, List.filter_append, sourceLines_includes hhead]
    simp [List.filter_map, Function.comp_def, hclose]

end

/-- The header declares, and the source defines, the functions of the entities that were taken, in the order
in which they came, and then the entry point, which calls each of them once. No name or type that stands in
the body of a function makes one of its lines look like a definition or a call. -/
theorem module_agrees (scope suffix marker : String) (asked : List (Schema × Path)) (header : Path)
    (hcomment : "//".toList <+: marker.toList) (h : OneLined scope suffix marker header asked) :
    Agree (Namespace.qualifier scope) (header.fileName?.getD header.includeText)
      ((firsts asked).map (·.1.bindingFunction)) ((firsts asked).map (·.2.includeText))
      ((of scope suffix asked).header marker) ((of scope suffix asked).source marker header) := by
  have hsub : firsts asked ⊆ asked := (firsts_sublist asked).subset
  have hl : OneLined scope suffix marker header (firsts asked) :=
    { h with
      schemas := fun c hc => h.schemas c (hsub hc)
      paths := fun c hc => h.paths c (hsub hc) }
  exact (of_keeps scope suffix asked).agree hl hcomment

theorem module_agrees_clashing :
    ("//".toList <+: "// generated".toList ∧
      OneLined "cyan::generated" "Component" "// generated" "out/chai.hpp" clashing) ∧
    Agree "cyan::generated::" "chai.hpp"
      ["make_game_Health_chai_bindings", "make_Name_chai_bindings"] ["out/game/health.hpp", "out/name.hpp"]
      ((of "cyan::generated" "Component" clashing).header "// generated")
      ((of "cyan::generated" "Component" clashing).source "// generated" "out/chai.hpp") := by
  have h : OneLined "cyan::generated" "Component" "// generated" "out/chai.hpp" clashing := by decide
  exact ⟨⟨by decide, h⟩, module_agrees _ _ _ clashing "out/chai.hpp" (by decide) h⟩

end Registry

end Binding

end EntityGen
