import EntityGen.Binding
import Mathlib.Data.List.Forall2
import Mathlib.Data.List.Nodup

namespace EntityGen

/-- The entity's function has the name of the one that calls the functions of all entities. -/
def Schema.TakesCombined (s : Schema) : Prop :=
  s.scope = none ∧ s.name = "all_codegen" ∨
    ∃ ns, s.scope = some ns ∧ Namespace.mangle ns = "all" ∧ s.name = "codegen"

theorem named_combined (middle : String) :
    "make_" ++ middle ++ "_chai_bindings" = combinedFunction ↔ middle = "all_codegen" := by
  have hcombined : combinedFunction = "make_" ++ "all_codegen" ++ "_chai_bindings" := by decide
  rw [hcombined, String.append_left_inj, String.append_right_inj]

theorem underscored_eq (a b : String) :
    a ++ "_" ++ b = "all_codegen" ↔ a = "all" ∧ b = "codegen" := by
  rw [← String.toList_inj, ← String.toList_inj, ← String.toList_inj, eq_comm]
  have hsplit : "all_codegen".toList = "all".toList ++ '_' :: "codegen".toList := by decide
  have hjoin : (a ++ "_" ++ b).toList = a.toList ++ '_' :: b.toList := by simp
  rw [hsplit, hjoin, List.append_cons_inj_of_notMem (by decide) (by decide)]
  simp [eq_comm]

theorem Schema.bindingFunction_eq_combined (s : Schema) :
    s.bindingFunction = combinedFunction ↔ s.TakesCombined := by
  rw [bindingFunction, TakesCombined]
  cases s.scope with
  | none => simpa using named_combined s.name
  | some ns =>
      have hmiddle := named_combined (Namespace.mangle ns ++ "_" ++ s.name)
      rw [underscored_eq] at hmiddle
      simpa only [String.append_assoc, reduceCtorEq, false_and, false_or, Option.some.injEq,
        exists_eq_left'] using hmiddle

namespace Binding.Registry

structure Consistent (r : Registry) : Prop where
  registered : r.registered = r.entries.map (·.binding.qualifiedName)
  functions : r.functions = r.entries.map fun e => (e.binding.function, e.binding.qualifiedName)

theorem Consistent.start (scope suffix : String) :
    ({ scope, classSuffix := suffix } : Registry).Consistent := ⟨rfl, rfl⟩

theorem Consistent.take {r : Registry} (h : r.Consistent) (b : Binding) (p : Path) :
    (r.take b p).Consistent where
  registered := by simp only [Registry.take, h.registered, List.map_append, List.map_singleton]
  functions := by simp only [Registry.take, h.functions, List.map_append, List.map_singleton]

theorem Consistent.lookup_function {r : Registry} (h : r.Consistent) (f : String) :
    (∃ existing, r.functions.lookup f = some existing) ∨
      r.functions.lookup f = none ∧ f ∉ r.functionNames := by
  cases hl : r.functions.lookup f with
  | some existing => exact .inl ⟨existing, rfl⟩
  | none =>
      refine .inr ⟨rfl, fun hm => ?_⟩
      obtain ⟨e, he, hf⟩ := List.mem_map.1 hm
      have := List.lookup_eq_none_iff.1 hl _ (h.functions ▸ List.mem_map.2 ⟨e, he, rfl⟩)
      simp [hf] at this

def entry (r : Registry) (s : Schema) (p : Path) : Entry :=
  ⟨Binding.ofSchema s r.classSuffix, p.includeText⟩

theorem register_cases {r : Registry} (h : r.Consistent) (s : Schema) (p : Path) :
    (s.qualifiedName ∈ r.registered ∧
      r.register s p = .error (.duplicateBinding s.qualifiedName p)) ∨
    s.qualifiedName ∉ r.registered ∧
      ((∃ existing, r.functions.lookup s.bindingFunction = some existing ∧
        r.register s p =
          .error (.bindingNameClash s.bindingFunction s.qualifiedName existing p)) ∨
      s.bindingFunction ∉ r.functionNames ∧
        r.register s p = .ok (r.take (.ofSchema s r.classSuffix) p)) := by
  have hq : (Binding.ofSchema s r.classSuffix).qualifiedName = s.qualifiedName := rfl
  have hf : (Binding.ofSchema s r.classSuffix).function = s.bindingFunction := rfl
  simp only [register, hq, hf]
  by_cases hm : s.qualifiedName ∈ r.registered
  · exact .inl ⟨hm, by rw [if_pos hm]⟩
  · refine .inr ⟨hm, ?_⟩
    rw [if_neg hm]
    rcases h.lookup_function s.bindingFunction with ⟨existing, hl⟩ | ⟨hl, hno⟩
    · exact .inl ⟨existing, hl, by rw [hl]⟩
    · exact .inr ⟨hno, by rw [hl]⟩

theorem register_ok {r r' : Registry} {s : Schema} {p : Path} (h : r.register s p = .ok r') :
    r' = r.take (.ofSchema s r.classSuffix) p := by
  simp only [register] at h
  split at h
  · cases h
  · split at h
    · cases h
    · exact (Except.ok.inj h).symm

/-- The registry after it was asked to take these entities, each with the path of its header. -/
def after : Registry → List (Schema × Path) → Registry
  | r, [] => r
  | r, (s, p) :: asked =>
    match r.register s p with
    | .ok r' => after r' asked
    | .error _ => after r asked

def taken : Registry → List (Schema × Path) → List (Schema × Path)
  | _, [] => []
  | r, (s, p) :: asked =>
    match r.register s p with
    | .ok r' => (s, p) :: taken r' asked
    | .error _ => taken r asked

theorem after_entries (r : Registry) (asked : List (Schema × Path)) :
    (r.after asked).entries = r.entries ++ (r.taken asked).map fun c => r.entry c.1 c.2 := by
  induction asked generalizing r with
  | nil => simp [after, taken]
  | cons c asked ih =>
      obtain ⟨s, p⟩ := c
      simp only [after, taken]
      cases h : r.register s p with
      | error f => exact ih r
      | ok r' =>
          cases register_ok h
          simp only [ih, take, List.map_cons, List.append_assoc, List.singleton_append, entry]

theorem Consistent.after {r : Registry} (h : r.Consistent) (asked : List (Schema × Path)) :
    (r.after asked).Consistent := by
  induction asked generalizing r with
  | nil => exact h
  | cons c asked ih =>
      obtain ⟨s, p⟩ := c
      rw [Registry.after]
      cases hr : r.register s p with
      | error f => exact ih h
      | ok r' => exact ih (register_ok hr ▸ h.take _ _)

theorem functionNames_after (r : Registry) (asked : List (Schema × Path)) :
    (r.after asked).functionNames =
      r.functionNames ++ (r.taken asked).map fun c => c.1.bindingFunction := by
  rw [functionNames, after_entries, List.map_append, List.map_map]
  rfl

theorem functionNames_nodup {r : Registry} (hr : r.Consistent) (h : r.functionNames.Nodup)
    (asked : List (Schema × Path)) : (r.after asked).functionNames.Nodup := by
  induction asked generalizing r with
  | nil => exact h
  | cons c asked ih =>
      obtain ⟨s, p⟩ := c
      rw [after]
      rcases register_cases hr s p with ⟨-, he⟩ | ⟨-, ⟨_, -, he⟩ | ⟨hno, he⟩⟩
      · simpa only [he] using ih hr h
      · simpa only [he] using ih hr h
      · simp only [he]
        refine ih (hr.take _ _) ?_
        rw [functionNames, take, List.map_append, List.map_singleton, ← List.concat_eq_append]
        exact h.concat hno

def of (scope suffix : String) (asked : List (Schema × Path)) : Registry :=
  after { scope, classSuffix := suffix } asked

/-- The functions that the source of the module defines, in order. -/
def defined (r : Registry) : List String := r.functionNames ++ [combinedFunction]

theorem source_defines (r : Registry) (marker : String) (header : Path) : ∃ bodies,
    r.source marker header =
      sourceText marker (header.fileName?.getD header.includeText) r.includes bodies ∧
    List.Forall₂ (fun body f => ∃ rest, body = opening r.qualifier f ++ rest) bodies r.defined := by
  refine ⟨_, rfl, ?_⟩
  rw [defined, functionNames]
  refine List.rel_append ?_ (.cons ⟨_, String.append_assoc⟩ .nil)
  rw [List.forall₂_map_left_iff, List.forall₂_map_right_iff, List.forall₂_same]
  intro e _
  simp only [bodyOf, body, String.append_assoc]
  exact ⟨_, rfl⟩

theorem combined_mem (r : Registry) (asked : List (Schema × Path)) (h : r.entries = []) :
    combinedFunction ∈ (r.after asked).functionNames ↔
      ∃ c ∈ r.taken asked, c.1.TakesCombined := by
  rw [functionNames_after, functionNames, h, List.map_nil, List.nil_append, List.mem_map]
  simp only [← Schema.bindingFunction_eq_combined]

/-- The source defines one function for each entity that was taken, with a name of its own, and the one
that calls them. That one has a name of its own too, and so does not call itself, unless the entity
`all_codegen` of the global namespace was taken, or the entity `codegen` of a namespace `all`. -/
theorem functions_distinct (scope suffix : String) (asked : List (Schema × Path)) (marker : String)
    (header : Path) :
    (∃ bodies, (of scope suffix asked).source marker header =
        sourceText marker (header.fileName?.getD header.includeText)
          (of scope suffix asked).includes bodies ∧
      List.Forall₂ (fun body f => ∃ rest, body = opening (of scope suffix asked).qualifier f ++ rest)
        bodies (of scope suffix asked).defined) ∧
    (of scope suffix asked).functionNames =
      (taken { scope, classSuffix := suffix } asked).map (·.1.bindingFunction) ∧
    (of scope suffix asked).functionNames.Nodup ∧
    ((of scope suffix asked).defined.Nodup ↔
      ∀ c ∈ taken { scope, classSuffix := suffix } asked, ¬ c.1.TakesCombined) := by
  have hstart : ({ scope, classSuffix := suffix } : Registry).functionNames.Nodup := .nil
  have hnodup : (of scope suffix asked).functionNames.Nodup := functionNames_nodup (.start _ _) hstart asked
  have hmem := combined_mem { scope, classSuffix := suffix } asked rfl
  refine ⟨source_defines _ marker header, functionNames_after _ asked, hnodup, ?_⟩
  rw [defined, List.nodup_append_comm, List.singleton_append, List.nodup_cons]
  rw [of] at hnodup ⊢
  rw [hmem]
  simp [hnodup]

def withCombined : Registry :=
  of "cyan::generated" "Component" [({ name := "all_codegen" }, "out/all_codegen.hpp")]

theorem combined_defined_twice : ¬ withCombined.defined.Nodup ∧ withCombined.combined.2 =
    opening withCombined.qualifier combinedFunction ++ callLine combinedFunction ++ "\x7d\n" := by
  decide +kernel

end Binding.Registry

end EntityGen
