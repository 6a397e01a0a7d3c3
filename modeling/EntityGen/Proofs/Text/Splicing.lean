import EntityGen.Proofs.Text.Lines
import Mathlib.Data.List.Induction

namespace EntityGen.Text

def splice : List Char → List Char
  | '\\' :: '\n' :: cs => splice cs
  | c :: cs => c :: splice cs
  | [] => []

/-- The text without any backslash that a line feed follows, and without that line feed. -/
def spliced (s : String) : String := .ofList (splice s.toList)

/-- A line, and none that goes on in the next one. -/
structure Closed (l : String) : Prop where
  oneLine : OneLine l
  last : l.toList.getLast? ≠ some '\\'

instance (l : String) : Decidable (Closed l) :=
  decidable_of_iff (OneLine l ∧ l.toList.getLast? ≠ some '\\')
    ⟨fun h => ⟨h.1, h.2⟩, fun h => ⟨h.oneLine, h.last⟩⟩

structure Flat (s : String) : Prop where
  oneLine : OneLine s
  backslash : '\\' ∉ s.toList

instance (s : String) : Decidable (Flat s) :=
  decidable_of_iff (OneLine s ∧ '\\' ∉ s.toList) ⟨fun h => ⟨h.1, h.2⟩, fun h => ⟨h.oneLine, h.backslash⟩⟩

variable {s t l : String} {ls : List String} {cs ds : List Char}

theorem Flat.closed (h : Flat s) : Closed s where
  oneLine := h.oneLine
  last hlast := h.backslash (List.mem_of_getLast? hlast)

theorem Flat.append (hs : Flat s) (ht : Flat t) : Flat (s ++ t) where
  oneLine := oneLine_append.2 ⟨hs.oneLine, ht.oneLine⟩
  backslash := by
    rw [String.toList_append, List.mem_append, not_or]
    exact ⟨hs.backslash, ht.backslash⟩

theorem flat_intercalate (hs : Flat s) (h : ∀ l ∈ ls, Flat l) : Flat (s.intercalate ls) where
  oneLine := oneLine_intercalate hs.oneLine fun l hl => (h l hl).oneLine
  backslash := not_mem_intercalate hs.backslash fun l hl => (h l hl).backslash

theorem splice_cons {c : Char} (h : c ≠ '\\' ∨ cs.head? ≠ some '\n') : splice (c :: cs) = c :: splice cs := by
  apply splice.eq_2
  rintro ds rfl rfl
  simp at h

theorem splice_append (h : '\n' ∉ cs) (hcut : cs.getLast? ≠ some '\\' ∨ ds.head? ≠ some '\n') :
    splice (cs ++ ds) = cs ++ splice ds := by
  induction cs with
  | nil => rfl
  | cons c cs ih =>
      rw [List.mem_cons, not_or] at h
      cases cs with
      | nil =>
          have hc : c ≠ '\\' ∨ ds.head? ≠ some '\n' := hcut.imp_left fun hlast => by simpa using hlast
          rw [List.singleton_append, splice_cons hc, List.singleton_append]
      | cons d cs =>
          have hd : d ≠ '\n' := fun he => h.2 (he ▸ List.mem_cons_self)
          have hhead : (d :: cs ++ ds).head? ≠ some '\n' := by simpa using hd
          rw [List.getLast?_cons_cons] at hcut
          exact (splice_cons (.inr hhead)).trans (congrArg (c :: ·) (ih h.2 hcut))

theorem spliced_continued (h : OneLine l) : spliced (l ++ "\\\n" ++ s) = l ++ spliced s := by
  have hlist : (l ++ "\\\n" ++ s).toList = l.toList ++ '\\' :: '\n' :: s.toList := by simp
  have hmark : splice ('\\' :: '\n' :: s.toList) = splice s.toList := rfl
  rw [spliced, hlist, splice_append h (.inr (by simp)), hmark, String.ofList_append, String.ofList_toList, ← spliced]

theorem spliced_closed (h : Closed l) : spliced (l ++ "\n" ++ s) = l ++ "\n" ++ spliced s := by
  have hlist : (l ++ "\n" ++ s).toList = l.toList ++ '\n' :: s.toList := by simp
  have hfeed : splice ('\n' :: s.toList) = '\n' :: splice s.toList := splice_cons (.inl (by decide))
  rw [spliced, hlist, splice_append h.oneLine (.inl h.last), hfeed, ← String.toList_inj]
  simp [spliced]

theorem spliced_ended (h : ∀ l ∈ ls, Closed l) (s : String) : spliced (ended ls ++ s) = ended ls ++ spliced s := by
  induction ls with
  | nil => simp
  | cons l ls ih =>
      obtain ⟨hl, hls⟩ := List.forall_mem_cons.1 h
      rw [ended_cons, String.append_assoc, spliced_closed hl, ih hls, ← String.append_assoc]

/-- Lines that go on after a blank and a backslash are one line, with the blanks between them. -/
theorem spliced_carried (hne : ls ≠ []) (h : ∀ l ∈ ls, Closed l) (s : String) :
    spliced (ended (carried " \\" ls) ++ s) = ended [" ".intercalate ls] ++ spliced s := by
  induction ls with
  | nil => contradiction
  | cons l ls ih =>
      obtain ⟨hl, hls⟩ := List.forall_mem_cons.1 h
      cases ls with
      | nil =>
          rw [String.intercalate_singleton]
          exact spliced_ended (List.forall_mem_singleton.2 hl) s
      | cons m ms =>
          have hblank : OneLine (l ++ " ") := oneLine_append.2 ⟨hl.oneLine, by decide⟩
          have hmark : l ++ " \\" ++ "\n" = l ++ " " ++ "\\\n" := by simp [← String.toList_inj]
          rw [carried, ended_cons, hmark, String.append_assoc, spliced_continued hblank, ih (by simp) hls,
            String.intercalate_cons_cons]
          · simp [String.append_assoc]
          · simp

theorem ended_blocks (b : List String) {bs : List (List String)} (hne : bs ≠ []) :
    ended ([""].intercalate (b :: bs)) = ended b ++ (ended [""] ++ ended ([""].intercalate bs)) := by
  rw [List.intercalate_cons_of_ne_nil hne, ended_append, ended_append, String.append_assoc]

theorem spliced_blocks {bs : List (List String)} (h : ∀ b ∈ bs, b ≠ [] ∧ ∀ l ∈ b, Closed l) :
    spliced (ended ([""].intercalate (bs.map (carried " \\")))) =
      ended ([""].intercalate (bs.map fun b => [" ".intercalate b])) := by
  induction bs with
  | nil => decide
  | cons b bs ih =>
      obtain ⟨⟨hne, hb⟩, hbs⟩ := List.forall_mem_cons.1 h
      by_cases hnil : bs = []
      · subst hnil
        simpa [spliced, splice] using spliced_carried hne hb ""
      · have hblank : ∀ l ∈ [""], Closed l := by decide
        rw [List.map_cons, List.map_cons, ended_blocks _ (by simpa using hnil), ended_blocks _ (by simpa using hnil),
          spliced_carried hne hb, spliced_ended hblank, ih hbs]

theorem carried_concat (mark : String) (ls : List String) (l : String) :
    carried mark (ls ++ [l]) = ls.map (· ++ mark) ++ [l] := by
  induction ls with
  | nil => rfl
  | cons k ks ih =>
      rw [List.cons_append, carried, ih, List.map_cons, List.cons_append]
      simp

/-- The last line of a text is whole: a line feed ends it, and no line is to follow. -/
def Finished (s : String) : Prop := ∃ t, s = t ++ "\n" ∧ t.toList.getLast? ≠ some '\\'

theorem ended_last (ls : List String) : (ended ls).toList.getLast? ≠ some '\\' := by
  induction ls using List.reverseRecOn with
  | nil => simp
  | append_singleton ls l => simp

theorem ended_finished (ls : List String) (h : Closed l) : Finished (ended (ls ++ [l])) := by
  refine ⟨ended ls ++ l, by simp [String.append_assoc], ?_⟩
  rw [String.toList_append, List.getLast?_append]
  cases hl : l.toList.getLast? with
  | none => simpa using ended_last ls
  | some c =>
      rw [Option.some_or, ← hl]
      exact h.last

end EntityGen.Text
