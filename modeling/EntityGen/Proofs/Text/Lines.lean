import Mathlib.Data.List.Basic

namespace EntityGen.Text

def OneLine (s : String) : Prop := '\n' ∉ s.toList

instance (s : String) : Decidable (OneLine s) := inferInstanceAs (Decidable (¬ _ ∈ _))

/-- What stands between line feeds; there is always a first line. -/
def lines (s : String) : List String := (s.toList.splitOn '\n').map String.ofList

/-- The lines, each with a line feed after it. -/
def ended (ls : List String) : String := .join (ls.map (· ++ "\n"))

variable {a b l : String} {ls ms : List String}

theorem not_mem_piece {c : Char} {cs x : List Char} (h : x ∈ cs.splitOn c) : c ∉ x := by
  induction cs generalizing x with
  | nil => simp_all
  | cons d cs ih =>
      rw [List.splitOn_cons_eq_if_modifyHead] at h
      split at h
      · rcases List.mem_cons.1 h with rfl | h
        · exact List.not_mem_nil
        · exact ih h
      next hd =>
        have hne : c ≠ d := fun he => hd (beq_iff_eq.2 he.symm)
        cases hs : cs.splitOn c with
        | nil => exact absurd hs (List.splitOn_ne_nil _ _)
        | cons y ys =>
            rw [hs] at ih h
            rcases List.mem_cons.1 h with rfl | h
            · rw [List.mem_cons, not_or]
              exact ⟨hne, ih List.mem_cons_self⟩
            · exact ih (List.mem_cons_of_mem _ h)

theorem size_within (h : a.toList <:+: b.toList) : a.utf8ByteSize ≤ b.utf8ByteSize := by
  obtain ⟨before, rest, hb⟩ := h
  have htext : b = String.ofList before ++ a ++ String.ofList rest := by
    apply String.toList_injective
    simp [← hb]
  rw [htext, String.utf8ByteSize_append, String.utf8ByteSize_append]
  omega

theorem not_mem_intercalate {c : Char} (ha : c ∉ a.toList) (hls : ∀ l ∈ ls, c ∉ l.toList) :
    c ∉ (a.intercalate ls).toList := by
  induction ls with
  | nil => simp
  | cons l ls ih =>
      obtain ⟨hl, hls⟩ := List.forall_mem_cons.1 hls
      cases ls with
      | nil => simpa using hl
      | cons m ms =>
          simp only [String.intercalate_cons_cons, String.toList_append, List.mem_append, not_or]
          exact ⟨⟨hl, ha⟩, ih hls⟩

@[simp]
theorem oneLine_append : OneLine (a ++ b) ↔ OneLine a ∧ OneLine b := by
  simp only [OneLine, String.toList_append, List.mem_append, not_or]

theorem oneLine_intercalate (ha : OneLine a) (hls : ∀ l ∈ ls, OneLine l) : OneLine (a.intercalate ls) :=
  not_mem_intercalate ha hls

@[simp]
theorem ended_nil : ended [] = "" := rfl

@[simp]
theorem ended_cons : ended (l :: ls) = l ++ "\n" ++ ended ls := by
  rw [ended, List.map_cons, String.join_cons, ← ended]

@[simp]
theorem ended_append : ended (ls ++ ms) = ended ls ++ ended ms := by
  rw [ended, List.map_append, String.join_append, ← ended, ← ended]

theorem lines_ended (h : ∀ l ∈ ls, OneLine l) : lines (ended ls) = ls ++ [""] := by
  induction ls with
  | nil => decide
  | cons l ls ih =>
      obtain ⟨hl, hls⟩ := List.forall_mem_cons.1 h
      have hcons : (ended (l :: ls)).toList = l.toList ++ '\n' :: (ended ls).toList := by simp
      rw [lines, hcons, List.splitOn_append_cons_self_of_not_mem hl, List.map_cons, ← lines, ih hls,
        String.ofList_toList, List.cons_append]

theorem lines_append (a b : String) : lines (a ++ "\n" ++ b) = lines a ++ lines b := by
  have hlist : (a ++ "\n" ++ b).toList = a.toList ++ '\n' :: b.toList := by simp
  rw [lines, hlist, List.splitOn_append_cons_self, List.map_append, ← lines, ← lines]

theorem lines_eq_singleton : lines l = [l] ↔ OneLine l := by
  constructor
  · intro h
    have hl : l ∈ lines l := h ▸ List.mem_singleton_self l
    obtain ⟨x, hx, rfl⟩ := List.mem_map.1 hl
    simpa only [OneLine, String.toList_ofList] using not_mem_piece hx
  · intro h
    rw [lines, List.splitOn_eq_singleton h, List.map_singleton, String.ofList_toList]

theorem intercalate_lines (h : ls ≠ []) : "\n".intercalate ls ++ "\n" = ended ls := by
  induction ls with
  | nil => contradiction
  | cons l ls ih =>
      cases ls with
      | nil => simp
      | cons m ms => rw [String.intercalate_cons_cons, ended_cons, ← ih (by simp), String.append_assoc]

/-- Every line but the last with a mark after it that it goes on. -/
def carried (mark : String) : List String → List String
  | [] => []
  | [l] => [l]
  | l :: ls => (l ++ mark) :: carried mark ls

theorem carried_ended {mark : String} (h : ls ≠ []) :
    (mark ++ "\n").intercalate ls ++ "\n" = ended (carried mark ls) := by
  induction ls with
  | nil => contradiction
  | cons l ls ih =>
      cases ls with
      | nil => simp [carried]
      | cons m ms =>
          rw [String.intercalate_cons_cons, carried, ended_cons, ← ih (by simp)]
          · simp only [String.append_assoc]
          · simp

theorem mem_carried {mark : String} (h : l ∈ carried mark ls) : ∃ m ∈ ls, l = m ∨ l = m ++ mark := by
  fun_induction carried mark ls with
  | case1 => cases h
  | case2 m => exact ⟨m, List.mem_cons_self, .inl (List.mem_singleton.1 h)⟩
  | case3 m ms _ ih =>
      rcases List.mem_cons.1 h with rfl | h
      · exact ⟨m, List.mem_cons_self, .inr rfl⟩
      · obtain ⟨m', hm', hl⟩ := ih h
        exact ⟨m', List.mem_cons_of_mem m hm', hl⟩

theorem carried_oneLine {mark : String} (hmark : OneLine mark) (h : ∀ l ∈ ls, OneLine l) :
    ∀ l ∈ carried mark ls, OneLine l := by
  intro l hl
  obtain ⟨m, hm, rfl | rfl⟩ := mem_carried hl
  · exact h l hm
  · exact oneLine_append.2 ⟨h m hm, hmark⟩

theorem intercalate_ended (bs : List (List String)) :
    "\n".intercalate (bs.map ended) = ended ([""].intercalate bs) := by
  induction bs with
  | nil => rfl
  | cons b bs ih =>
      cases bs with
      | nil => simp
      | cons c cs =>
          rw [List.map_cons, List.map_cons, String.intercalate_cons_cons, ← List.map_cons, ih,
            List.intercalate_cons_cons, ended_append, ended_append, ended_cons, ended_nil]
          simp

theorem intercalate_concat (bs : List (List String)) (c : List String) :
    [""].intercalate (bs ++ [c]) = bs.flatMap (· ++ [""]) ++ c := by
  induction bs with
  | nil => simp
  | cons b bs ih =>
      rw [List.cons_append, List.flatMap_cons, List.append_assoc, ← ih]
      cases bs <;> simp [List.intercalate_cons_cons]

/-- How a line begins and ends. -/
structure Spans (first last l : String) : Prop where
  begins : first.toList <+: l.toList
  ends : last.toList <:+ l.toList

instance (first last l : String) : Decidable (Spans first last l) :=
  decidable_of_iff (first.toList <+: l.toList ∧ last.toList <:+ l.toList)
    ⟨fun h => ⟨h.1, h.2⟩, fun h => ⟨h.begins, h.ends⟩⟩

theorem spans_append (first middle last : String) : Spans first last (first ++ middle ++ last) where
  begins := by simp
  ends := by
    rw [String.toList_append]
    exact List.suffix_append _ _

theorem Spans.head {first last : String} {c : Char} (h : Spans first last l)
    (hc : first.toList.head? = some c) : l.toList.head? = some c := by
  obtain ⟨t, ht⟩ := h.begins
  rw [← ht, List.head?_append, hc, Option.some_or]

end EntityGen.Text
