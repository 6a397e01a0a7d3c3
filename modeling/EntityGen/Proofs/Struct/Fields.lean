import EntityGen.Binding
import Mathlib.Data.List.Forall2

namespace EntityGen

open List (Forall₂)

namespace Field

open Struct (Member Param Initializer)

structure Declared (f : Field) (m : Member) : Prop where
  type : m.type = f.type
  name : m.name = f.name

structure Initialized (f : Field) (i : Initializer) : Prop where
  member : i.member = f.name
  value : i.value = f.initial.getD ""

structure Taken (f : Field) (p : Param) : Prop where
  type : p.type = f.type
  name : p.name = f.name ++ "_"
  passing : p.passing = .byValue ↔ f.copyable = true

theorem passing_byValue (f : Field) : f.passing = .byValue ↔ f.copyable = true := by
  rw [passing]
  cases f.copyable <;> simp

end Field

namespace Struct

variable {fields : List Field}

/-- The constructor that is given nothing. -/
structure Constructor.Initializes (c : Constructor) (fields : List Field) : Prop where
  implicit : c.explicit = false
  params : c.params = []
  initializers : Forall₂ Field.Initialized fields c.initializers

/-- The constructor that is given a value for each field. -/
structure Constructor.TakesFields (c : Constructor) (fields : List Field) : Prop where
  explicit : c.explicit = true ↔ fields.length = 1
  params : Forall₂ Field.Taken fields c.params
  members : Forall₂ (fun f i => i.member = f.name) fields c.initializers
  values : Forall₂ (fun p i => i.value = p.name) c.params c.initializers

/-- These types stand before the names of the parameters in the constructor's text. -/
structure Constructor.Writes (c : Constructor) (types : List String) : Prop where
  length : types.length = c.params.length
  text : ∀ struct, ∃ last, c.text struct = (if c.explicit then "explicit " else "") ++ struct ++ "(" ++
    ", ".intercalate (List.zipWith (fun t p => t ++ " " ++ p.name) types c.params) ++ ")" ++ last

theorem defaultOf_initializes (fields : List Field) : (defaultOf fields).Initializes fields where
  implicit := rfl
  params := rfl
  initializers := by
    rw [defaultOf, List.forall₂_map_right_iff, List.forall₂_same]
    exact fun f _ => ⟨rfl, rfl⟩

theorem fieldListOf_takesFields (fields : List Field) : (fieldListOf fields).TakesFields fields where
  explicit := decide_eq_true_iff
  params := by
    rw [fieldListOf, List.forall₂_map_right_iff, List.forall₂_same]
    exact fun f _ => ⟨rfl, rfl, f.passing_byValue⟩
  members := by
    rw [fieldListOf, List.forall₂_map_right_iff, List.forall₂_same]
    exact fun f _ => rfl
  values := by
    rw [fieldListOf, List.forall₂_map_left_iff, List.forall₂_map_right_iff, List.forall₂_same]
    exact fun f _ => rfl

theorem Constructor.writes_types (c : Constructor) :
    c.Writes (c.params.map fun p => p.passing.spell p.type) where
  length := List.length_map _
  text struct := by
    have hparams : List.zipWith (fun t p => t ++ " " ++ p.name)
        (c.params.map fun p => p.passing.spell p.type) c.params = c.params.map Param.text := by
      rw [List.zipWith_map_left, List.zipWith_self]
      rfl
    rw [hparams, Constructor.text]
    exact ⟨_, by rw [String.append_assoc]⟩

theorem constructors_default (fields : List Field) :
    (constructorsOf fields).filter (·.kind = .default) = [defaultOf fields] := by
  rw [constructorsOf]
  split <;> rfl

theorem constructors_fieldList (fields : List Field) :
    (constructorsOf fields).filter (·.kind = .fieldList) =
      if fields = [] then [] else [fieldListOf fields] := by
  rw [constructorsOf]
  split <;> rfl

end Struct

open Binding (constructorText)

theorem Binding.arguments_written {s : Schema} (suffix : String) (h : s.fields ≠ []) :
    ∃ types, (ofSchema s suffix).arguments = some types ∧
      (Struct.fieldListOf s.fields).Writes types := by
  have hargs : (ofSchema s suffix).arguments = some (s.fields.map fun f => f.passing.spell f.type) := if_neg h
  refine ⟨_, hargs, ?_⟩
  have hw := (Struct.fieldListOf s.fields).writes_types
  rwa [Struct.fieldListOf, List.map_map] at hw

/-- For every entity, the declarations, the initializers, the parameters and the accessors come from its
fields one by one. There is one constructor without parameters. There is one that takes the fields if there
are any, explicit for a single one; its text has the parameter types with which it is registered. -/
theorem Schema.fields_agree (s : Schema) (suffix : String) :
    Forall₂ Field.Declared s.fields (Struct.ofSchema s).members ∧
    Forall₂ (fun f m => m = f.name) s.fields (Binding.ofSchema s suffix).members ∧
    (∃ c, (Struct.ofSchema s).constructors.filter (·.kind = .default) = [c] ∧ c.Initializes s.fields) ∧
    (s.fields = [] →
      (Struct.ofSchema s).constructors.filter (·.kind = .fieldList) = [] ∧
      (Binding.ofSchema s suffix).arguments = none ∧
      (Binding.ofSchema s suffix).constructorTexts = [constructorText s.qualifiedName ""]) ∧
    (s.fields ≠ [] → ∃ c types,
      (Struct.ofSchema s).constructors.filter (·.kind = .fieldList) = [c] ∧ c.TakesFields s.fields ∧
      (Binding.ofSchema s suffix).arguments = some types ∧ c.Writes types ∧
      (Binding.ofSchema s suffix).constructorTexts =
        [constructorText s.qualifiedName "", constructorText s.qualifiedName (", ".intercalate types)]) := by
  refine ⟨?_, ?_, ?_, fun hnone => ?_, fun hsome => ?_⟩
  · rw [Struct.ofSchema, List.forall₂_map_right_iff, List.forall₂_same]
    exact fun f _ => ⟨rfl, rfl⟩
  · rw [Binding.ofSchema, List.forall₂_map_right_iff, List.forall₂_same]
    exact fun f _ => rfl
  · exact ⟨_, Struct.constructors_default s.fields, Struct.defaultOf_initializes s.fields⟩
  · have hargs : (Binding.ofSchema s suffix).arguments = none := if_pos hnone
    refine ⟨?_, hargs, ?_⟩
    · rw [Struct.ofSchema, Struct.constructors_fieldList, if_pos hnone]
    · rw [Binding.constructorTexts, hargs]
      rfl
  · obtain ⟨types, hargs, hw⟩ := Binding.arguments_written suffix hsome
    refine ⟨_, types, ?_, Struct.fieldListOf_takesFields s.fields, hargs, hw, ?_⟩
    · rw [Struct.ofSchema, Struct.constructors_fieldList, if_neg hsome]
    · rw [Binding.constructorTexts, hargs]
      rfl

end EntityGen
