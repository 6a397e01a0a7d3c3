import EntityGen.Proofs.Binding.Registering
import Mathlib.Data.List.Induction

namespace EntityGen.Binding.Registry

variable {scope suffix : String} {r : Registry} {kept asked : List (Schema × Path)} {s : Schema} {p : Path}

def NameTaken (kept : List (Schema × Path)) (s : Schema) : Prop :=
  s.qualifiedName ∈ kept.map (·.1.qualifiedName)

def FunctionTaken (kept : List (Schema × Path)) (s : Schema) : Prop :=
  s.bindingFunction ∈ kept.map (·.1.bindingFunction)

instance : Decidable (NameTaken kept s) := inferInstanceAs (Decidable (_ ∈ _))

instance : Decidable (FunctionTaken kept s) := inferInstanceAs (Decidable (_ ∈ _))

/-- Of the entities that are asked for, in order, those that neither name of was taken before. -/
def firsts (asked : List (Schema × Path)) : List (Schema × Path) :=
  asked.foldl
    (fun kept c => if NameTaken kept c.1 ∨ FunctionTaken kept c.1 then kept else kept ++ [c]) []

theorem firsts_concat (asked : List (Schema × Path)) (c : Schema × Path) :
    firsts (asked ++ [c]) = if NameTaken (firsts asked) c.1 ∨ FunctionTaken (firsts asked) c.1
      then firsts asked else firsts asked ++ [c] := by
  rw [firsts, List.foldl_append, ← firsts]
  rfl

theorem firsts_sublist (asked : List (Schema × Path)) : (firsts asked).Sublist asked := by
  induction asked using List.reverseRecOn with
  | nil => exact .refl _
  | append_singleton asked c ih =>
      rw [firsts_concat]
      split
      · exact ih.trans (List.sublist_append_left _ _)
      · exact ih.append (.refl _)

/-- The registry holds these entities, each with the path of its header, and its tables hold their names,
each once. -/
structure Keeps (r : Registry) (scope suffix : String) (kept : List (Schema × Path)) : Prop where
  scope : r.scope = scope
  classSuffix : r.classSuffix = suffix
  entries : r.entries = kept.map fun c => ⟨.ofSchema c.1 suffix, c.2.includeText⟩
  registered : r.registered = kept.map (·.1.qualifiedName)
  functions : r.functions = kept.map fun c => (c.1.bindingFunction, c.1.qualifiedName)
  qualifiedNames_nodup : (kept.map (·.1.qualifiedName)).Nodup
  functionNames_nodup : (kept.map (·.1.bindingFunction)).Nodup

theorem Keeps.consistent (h : r.Keeps scope suffix kept) : r.Consistent where
  registered := by rw [h.registered, h.entries, List.map_map]; rfl
  functions := by rw [h.functions, h.entries, List.map_map]; rfl

theorem Keeps.functionNames (h : r.Keeps scope suffix kept) :
    r.functionNames = kept.map (·.1.bindingFunction) := by
  rw [Registry.functionNames, h.entries, List.map_map]
  rfl

theorem Keeps.includes (h : r.Keeps scope suffix kept) : r.includes = kept.map (·.2.includeText) := by
  rw [Registry.includes, h.entries, List.map_map]
  rfl

theorem Keeps.take (h : r.Keeps scope suffix kept) (hname : ¬ NameTaken kept s)
    (hfunction : ¬ FunctionTaken kept s) (p : Path) :
    (r.take (.ofSchema s r.classSuffix) p).Keeps scope suffix (kept ++ [(s, p)]) where
  scope := h.scope
  classSuffix := h.classSuffix
  entries := by
    simp only [Registry.take, h.entries, h.classSuffix, List.map_append, List.map_singleton]
  registered := by
    simp only [Registry.take, h.registered, List.map_append, List.map_singleton]
    rfl
  functions := by
    simp only [Registry.take, h.functions, List.map_append, List.map_singleton]
    rfl
  qualifiedNames_nodup := by
    rw [List.map_append, List.map_singleton, ← List.concat_eq_append]
    exact h.qualifiedNames_nodup.concat hname
  functionNames_nodup := by
    rw [List.map_append, List.map_singleton, ← List.concat_eq_append]
    exact h.functionNames_nodup.concat hfunction

theorem Keeps.lookup (h : r.Keeps scope suffix kept) {f existing : String}
    (hl : r.functions.lookup f = some existing) :
    ∃ c ∈ kept, c.1.bindingFunction = f ∧ c.1.qualifiedName = existing := by
  rw [h.functions, List.lookup_eq_some_iff] at hl
  obtain ⟨before, after, he, -⟩ := hl
  have hm : (f, existing) ∈ kept.map fun c => (c.1.bindingFunction, c.1.qualifiedName) := by
    rw [he]
    exact List.mem_append_right _ List.mem_cons_self
  obtain ⟨c, hc, hpair⟩ := List.mem_map.1 hm
  exact ⟨c, hc, congrArg Prod.fst hpair, congrArg Prod.snd hpair⟩

theorem Keeps.owner (h : r.Keeps scope suffix kept) {c c' : Schema × Path} (hc : c ∈ kept) (hc' : c' ∈ kept)
    (hf : c.1.bindingFunction = c'.1.bindingFunction) : c = c' :=
  List.inj_on_of_nodup_map h.functionNames_nodup hc hc' hf

theorem Keeps.register (h : r.Keeps scope suffix kept) (s : Schema) (p : Path) :
    (NameTaken kept s ∧ r.register s p = .error (.duplicateBinding s.qualifiedName p)) ∨
    ¬ NameTaken kept s ∧
      ((∃ c ∈ kept, c.1.bindingFunction = s.bindingFunction ∧ r.register s p =
        .error (.bindingNameClash s.bindingFunction s.qualifiedName c.1.qualifiedName p)) ∨
      ¬ FunctionTaken kept s ∧ r.register s p = .ok (r.take (.ofSchema s r.classSuffix) p)) := by
  have hcases := register_cases h.consistent s p
  rw [h.registered, h.functionNames] at hcases
  rcases hcases with hdup | ⟨hname, ⟨existing, hl, he⟩ | hnew⟩
  · exact .inl hdup
  · obtain ⟨c, hc, hf, rfl⟩ := h.lookup hl
    exact .inr ⟨hname, .inl ⟨c, hc, hf, he⟩⟩
  · exact .inr ⟨hname, .inr hnew⟩

theorem Keeps.takes_iff (h : r.Keeps scope suffix kept) :
    (∃ r', r.register s p = .ok r') ↔ ¬ NameTaken kept s ∧ ¬ FunctionTaken kept s := by
  rcases h.register s p with ⟨hname, he⟩ | ⟨hname, ⟨c, hc, hf, he⟩ | ⟨hfunction, he⟩⟩
  · simp [he, hname]
  · have htaken : FunctionTaken kept s := List.mem_map.2 ⟨c, hc, hf⟩
    simp [he, htaken]
  · simp [he, hname, hfunction]

theorem Keeps.duplicate_iff (h : r.Keeps scope suffix kept) :
    r.register s p = .error (.duplicateBinding s.qualifiedName p) ↔ NameTaken kept s := by
  rcases h.register s p with ⟨hname, he⟩ | ⟨hname, ⟨c, -, -, he⟩ | ⟨-, he⟩⟩
  all_goals simp [he, hname]

theorem Keeps.clash_iff (h : r.Keeps scope suffix kept) {existing : String} : r.register s p =
      .error (.bindingNameClash s.bindingFunction s.qualifiedName existing p) ↔
    ¬ NameTaken kept s ∧ ∃ c ∈ kept, c.1.bindingFunction = s.bindingFunction ∧
      c.1.qualifiedName = existing := by
  rcases h.register s p with ⟨hname, he⟩ | ⟨hname, ⟨c, hc, hf, he⟩ | ⟨hfunction, he⟩⟩
  · simp [he, hname]
  · rw [he]
    constructor
    · intro hclash
      cases hclash
      exact ⟨hname, c, hc, hf, rfl⟩
    · rintro ⟨-, c', hc', hf', rfl⟩
      rw [h.owner hc hc' (hf.trans hf'.symm)]
  · rw [he]
    constructor
    · intro hclash
      cases hclash
    · rintro ⟨-, c, hc, hf, -⟩
      exact absurd (List.mem_map.2 ⟨c, hc, hf⟩) hfunction

theorem after_concat (r : Registry) (asked : List (Schema × Path)) (s : Schema) (p : Path) :
    r.after (asked ++ [(s, p)]) =
      ((r.after asked).register s p).toOption.getD (r.after asked) := by
  induction asked generalizing r with
  | nil =>
      simp only [List.nil_append, after]
      cases r.register s p <;> rfl
  | cons c asked ih =>
      simp only [List.cons_append, after]
      cases r.register c.1 c.2 with
      | ok r' => exact ih r'
      | error f => exact ih r

theorem of_keeps (scope suffix : String) (asked : List (Schema × Path)) :
    (of scope suffix asked).Keeps scope suffix (firsts asked) := by
  induction asked using List.reverseRecOn with
  | nil => exact ⟨rfl, rfl, rfl, rfl, rfl, .nil, .nil⟩
  | append_singleton asked c ih =>
      obtain ⟨s, p⟩ := c
      rw [of, after_concat, ← of, firsts_concat]
      rcases ih.register s p with ⟨hname, he⟩ | ⟨hname, ⟨c, hc, hf, he⟩ | ⟨hfunction, he⟩⟩
      · rw [he, if_pos (.inl hname)]
        exact ih
      · have htaken : FunctionTaken (firsts asked) s := List.mem_map.2 ⟨c, hc, hf⟩
        rw [he, if_pos (.inr htaken)]
        exact ih
      · rw [he, if_neg (not_or.2 ⟨hname, hfunction⟩)]
        exact ih.take hname hfunction p

/-- A registry takes an entity if and only if it took none with one of its names. It tells of the
qualified name if that is taken, else of the entity that has the function name, which is one only. What
it does not take leaves it as it was, so it holds the first entities, in the order in which they came. -/
theorem first_wins (scope suffix : String) (asked : List (Schema × Path)) (s : Schema) (p : Path) :
    (of scope suffix asked).Keeps scope suffix (firsts asked) ∧
    ((∃ r, (of scope suffix asked).register s p = .ok r) ↔
      ¬ NameTaken (firsts asked) s ∧ ¬ FunctionTaken (firsts asked) s) ∧
    ((of scope suffix asked).register s p = .error (.duplicateBinding s.qualifiedName p) ↔
      NameTaken (firsts asked) s) ∧
    (∀ existing, (of scope suffix asked).register s p =
        .error (.bindingNameClash s.bindingFunction s.qualifiedName existing p) ↔
      ¬ NameTaken (firsts asked) s ∧ ∃ c ∈ firsts asked,
        c.1.bindingFunction = s.bindingFunction ∧ c.1.qualifiedName = existing) ∧
    of scope suffix (asked ++ [(s, p)]) =
      ((of scope suffix asked).register s p).toOption.getD (of scope suffix asked) :=
  have h := of_keeps scope suffix asked
  ⟨h, h.takes_iff, h.duplicate_iff, fun _ => h.clash_iff, after_concat _ _ _ _⟩

def clashing : List (Schema × Path) :=
  [({ name := "Health", scope := some "game", fields := [{ name := "points", type := "int" }] },
      "out/game/health.hpp"),
    ({ name := "game_Health" }, "out/game_health.hpp"), ({ name := "Name" }, "out/name.hpp")]

example : (firsts clashing).map (·.1.qualifiedName) = ["game::Health", "Name"] := by decide

end EntityGen.Binding.Registry
