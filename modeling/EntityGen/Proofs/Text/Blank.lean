import EntityGen.Text.Basic
import Mathlib.Data.List.DropRight

namespace EntityGen.Text

/-- There is something, and no white space at either end. -/
structure Solid (s : String) : Prop where
  nonempty : s ≠ ""
  first : ∀ c, s.toList.head? = some c → isBlank c = false
  last : ∀ c, s.toList.getLast? = some c → isBlank c = false

variable {s : String}

theorem toList_trim (s : String) : (trim s).toList = (s.toList.dropWhile isBlank).rdropWhile isBlank :=
  String.toList_ofList

theorem allBlank_iff : allBlank s = true ↔ ∀ c ∈ s.toList, isBlank c = true := List.all_eq_true

theorem trim_eq_empty : trim s = "" ↔ allBlank s = true := by
  rw [← String.toList_eq_nil_iff, toList_trim, List.rdropWhile_eq_nil_iff, allBlank_iff,
    ← List.dropWhile_eq_nil_iff, List.dropWhile_idempotent, List.dropWhile_eq_nil_iff]

theorem trim_ne_empty : trim s ≠ "" ↔ allBlank s = false := by
  rw [ne_eq, trim_eq_empty, Bool.not_eq_true]

theorem solid_trim (h : allBlank s = false) : Solid (trim s) where
  nonempty := trim_ne_empty.2 h
  first c hc := by
    obtain ⟨t, ht⟩ := List.head?_eq_some_iff.1 hc
    obtain ⟨r, hr⟩ := List.rdropWhile_prefix isBlank (s.toList.dropWhile isBlank)
    have hb := List.head?_dropWhile_not isBlank s.toList
    rwa [← hr, ← toList_trim, ht] at hb
  last c hc := by
    rw [toList_trim] at hc
    obtain ⟨hne, rfl⟩ := List.mem_getLast?_eq_getLast hc
    exact Bool.eq_false_iff.2 (List.rdropWhile_last_not isBlank _ hne)

theorem solid_iff : Solid s ↔ s ≠ "" ∧ trim s = s := by
  constructor
  · intro h
    refine ⟨h.nonempty, String.toList_injective ?_⟩
    have hfirst : s.toList.dropWhile isBlank = s.toList := by
      cases hs : s.toList with
      | nil => rfl
      | cons c cs => exact List.dropWhile_cons_of_neg (by simp [h.first c (by simp [hs])])
    rw [toList_trim, hfirst, List.rdropWhile_eq_self_iff]
    intro hne
    simp [h.last _ (List.getLast?_eq_some_getLast hne)]
  · rintro ⟨hne, htrim⟩
    rw [← htrim]
    exact solid_trim (trim_ne_empty.1 (htrim.symm ▸ hne))

instance (s : String) : Decidable (Solid s) := decidable_of_iff' _ solid_iff

theorem Solid.trim (h : Solid s) : trim s = s := (solid_iff.1 h).2

theorem Solid.eq_of_trim {t : String} (hs : Solid s) (h : Text.trim t = s) : t = s ↔ Solid t := by
  refine ⟨fun he => he ▸ hs, fun ht => ?_⟩
  rw [← h, ht.trim]

variable {p : Char → Bool} {c : Char} {cs : List Char}

theorem dropWhile_append_of_not_all {before : List Char} (h : ¬ ∀ b ∈ before, p b) (after : List Char) :
    (before ++ after).dropWhile p = before.dropWhile p ++ after := by
  rw [List.dropWhile_append, if_neg]
  rwa [List.isEmpty_iff, List.dropWhile_eq_nil_iff]

theorem head_dropWhile {before after : List Char} (hc : p c = true) (h : cs.dropWhile p = before ++ c :: after) :
    ¬ ∀ b ∈ before, p b := by
  have hhead := List.head?_dropWhile_not p cs
  rw [h] at hhead
  cases before with
  | nil => simp [hc] at hhead
  | cons b bs => exact fun hall => by simp [hall b] at hhead

theorem mem_dropWhile (hc : p c = true) :
    c ∈ cs.dropWhile p ↔ ∃ before after, cs = before ++ c :: after ∧ ¬ ∀ b ∈ before, p b := by
  constructor
  · intro h
    obtain ⟨before, after, hcut⟩ := List.append_of_mem h
    refine ⟨cs.takeWhile p ++ before, after, ?_, fun hall => head_dropWhile hc hcut fun b hb => ?_⟩
    · rw [List.append_assoc, ← hcut, List.takeWhile_append_dropWhile]
    · exact hall b (List.mem_append_right _ hb)
  · rintro ⟨before, after, rfl, h⟩
    rw [dropWhile_append_of_not_all h]
    simp

theorem mem_rdropWhile (hc : p c = true) :
    c ∈ cs.rdropWhile p ↔ ∃ before after, cs = before ++ c :: after ∧ ¬ ∀ b ∈ after, p b := by
  rw [List.rdropWhile, List.mem_reverse, mem_dropWhile hc]
  constructor
  · rintro ⟨before, after, hcut, h⟩
    refine ⟨after.reverse, before.reverse, ?_, by simpa using h⟩
    rw [← List.reverse_reverse cs, hcut]
    simp
  · rintro ⟨before, after, rfl, h⟩
    exact ⟨after.reverse, before.reverse, by simp, by simpa using h⟩

theorem mem_trim (hc : isBlank c = true) : c ∈ (Text.trim s).toList ↔ ∃ before after,
    s.toList = before ++ c :: after ∧ (¬ ∀ b ∈ before, isBlank b) ∧ ¬ ∀ b ∈ after, isBlank b := by
  rw [toList_trim, mem_rdropWhile hc]
  constructor
  · rintro ⟨before, after, hcut, h⟩
    refine ⟨s.toList.takeWhile isBlank ++ before, after, ?_, fun hall => ?_, h⟩
    · rw [List.append_assoc, ← hcut, List.takeWhile_append_dropWhile]
    · exact head_dropWhile hc hcut fun b hb => hall b (List.mem_append_right _ hb)
  · rintro ⟨before, after, hcut, hbefore, h⟩
    exact ⟨before.dropWhile isBlank, after, by rw [hcut, dropWhile_append_of_not_all hbefore], h⟩

end EntityGen.Text
