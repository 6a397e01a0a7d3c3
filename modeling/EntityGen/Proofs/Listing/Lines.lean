import EntityGen.Proofs.Binding.Lines

namespace EntityGen.Listing

open Binding (IsInclude inclusion includes_ended)
open Text

variable {marker : String} {includes : List String} {lists : List (String × List String)}

def macroLines (l : String × List String) : List String :=
  carried " \\" (("#define " ++ l.1) :: l.2.map entryLine)

def fileLines (marker : String) (includes : List String) (lists : List (String × List String)) : List String :=
  [marker, "#pragma once", ""] ++ includes.map inclusion ++
    (if includes ≠ [] ∧ lists ≠ [] then [""] else []) ++ [""].intercalate (lists.map macroLines)

theorem macroText_ended (l : String × List String) : macroText l.1 l.2 = ended (macroLines l) := by
  have hsep : " \\\n" = " \\" ++ "\n" := by decide
  rw [macroText, macroLines, hsep, carried_ended (by simp)]

theorem macroTexts_ended (lists : List (String × List String)) :
    macroTexts lists = ended ([""].intercalate (lists.map macroLines)) := by
  rw [← intercalate_ended, List.map_map, macroTexts]
  congr 1
  exact List.map_congr_left fun l _ => macroText_ended l

theorem macroTexts_eq_empty : macroTexts lists = "" ↔ lists = [] := by
  have hne : ∀ l : String × List String, macroText l.1 l.2 ≠ "" := fun l => by simp [macroText]
  cases lists with
  | nil => exact ⟨fun _ => rfl, fun _ => rfl⟩
  | cons l ls => cases ls <;> simp [macroTexts, String.intercalate_cons_cons, hne]

theorem fileText_ended (marker : String) (includes : List String) (lists : List (String × List String)) :
    fileText includes lists marker = ended (fileLines marker includes lists) := by
  rw [fileText, includes_ended, fileLines, ended_append, ended_append, ended_append, ← macroTexts_ended]
  simp only [ne_eq, macroTexts_eq_empty]
  have hpreamble : preamble marker = ended [marker, "#pragma once", ""] := by
    rw [preamble, ← String.toList_inj]
    simp
  rw [hpreamble]
  split <;> simp

/-- Nothing but the include lines of a file looks like one, and no line is cut in two. -/
structure OneLined (marker : String) (includes : List String) (lists : List (String × List String)) : Prop where
  comment : ¬ IsInclude marker
  marker : OneLine marker
  includes : ∀ p ∈ includes, OneLine p
  lists : ∀ l ∈ lists, OneLine l.1 ∧ ∀ e ∈ l.2, OneLine e

theorem mem_macroLines {l : String × List String} {line : String} (h : line ∈ macroLines l) :
    ("#define " ++ l.1 = line ∨ "#define " ++ l.1 ++ " \\" = line) ∨
      ∃ e ∈ l.2, entryLine e = line ∨ entryLine e ++ " \\" = line := by
  obtain ⟨m, hm, hline⟩ := mem_carried h
  rcases List.mem_cons.1 hm with rfl | hm
  · exact .inl (hline.imp Eq.symm Eq.symm)
  · obtain ⟨e, he, rfl⟩ := List.mem_map.1 hm
    exact .inr ⟨e, he, hline.imp Eq.symm Eq.symm⟩

theorem mem_blocks {bs : List (List String)} {line : String} (h : line ∈ [""].intercalate bs) :
    line = "" ∨ ∃ b ∈ bs, line ∈ b := by
  induction bs with
  | nil => simp at h
  | cons b bs ih =>
      cases bs with
      | nil => exact .inr ⟨b, by simp, by simpa using h⟩
      | cons c cs =>
          rw [List.intercalate_cons_cons, List.mem_append, List.mem_append, List.mem_singleton] at h
          rcases h with (hb | rfl) | h
          · exact .inr ⟨b, by simp, hb⟩
          · exact .inl rfl
          · rcases ih h with rfl | ⟨b', hb', hl⟩
            · exact .inl rfl
            · exact .inr ⟨b', List.mem_cons_of_mem b hb', hl⟩

theorem macroLines_not_include {line : String} (h : line ∈ [""].intercalate (lists.map macroLines)) :
    ¬ IsInclude line := by
  rcases mem_blocks h with rfl | ⟨b, hb, hline⟩
  · decide
  · obtain ⟨l, -, rfl⟩ := List.mem_map.1 hb
    intro hi
    have hbegins := hi.begins
    rcases mem_macroLines hline with (rfl | rfl) | ⟨e, -, rfl | rfl⟩ <;>
      simp [entryLine] at hbegins

theorem fileLines_includes (hm : ¬ IsInclude marker) :
    (fileLines marker includes lists).filter (IsInclude ·) = includes.map inclusion := by
  have hhead : [marker, "#pragma once", ""].filter (IsInclude ·) = [] := by
    have hpragma : ¬ IsInclude "#pragma once" := by decide
    simp [hm, hpragma]
  have hincludes : (includes.map inclusion).filter (IsInclude ·) = includes.map inclusion :=
    List.filter_eq_self.2 fun l hl => by
      obtain ⟨p, -, rfl⟩ := List.mem_map.1 hl
      exact decide_eq_true (Binding.isInclude_inclusion p)
  have hgap : (if includes ≠ [] ∧ lists ≠ [] then [""] else []).filter (IsInclude ·) = [] := by
    split
    · decide
    · rfl
  have hlists : ([""].intercalate (lists.map macroLines)).filter (IsInclude ·) = [] :=
    List.filter_eq_nil_iff.2 fun l hl => by simpa using macroLines_not_include hl
  rw [fileLines, List.filter_append, List.filter_append, List.filter_append, hhead, hincludes, hgap, hlists,
    List.nil_append, List.append_nil, List.append_nil]

theorem macroLines_oneLine {l : String × List String} (h : OneLine l.1 ∧ ∀ e ∈ l.2, OneLine e) :
    ∀ line ∈ macroLines l, OneLine line := by
  refine carried_oneLine (by decide) (List.forall_mem_cons.2 ⟨?_, fun line hline => ?_⟩)
  · rw [oneLine_append]
    exact ⟨by decide, h.1⟩
  · obtain ⟨e, he, rfl⟩ := List.mem_map.1 hline
    simp only [entryLine, oneLine_append]
    exact ⟨⟨by decide, h.2 e he⟩, by decide⟩

theorem OneLined.each (h : OneLined marker includes lists) :
    ∀ l ∈ fileLines marker includes lists, OneLine l := by
  have hblank : OneLine "" := by decide
  intro l hl
  rw [fileLines, List.mem_append, List.mem_append, List.mem_append] at hl
  rcases hl with ((hl | hl) | hl) | hl
  · simp only [List.mem_cons, List.not_mem_nil, or_false] at hl
    rcases hl with rfl | rfl | rfl
    · exact h.marker
    · decide
    · exact hblank
  · obtain ⟨p, hp, rfl⟩ := List.mem_map.1 hl
    exact Binding.oneLine_inclusion (h.includes p hp)
  · split at hl
    · rw [List.mem_singleton.1 hl]
      exact hblank
    · cases hl
  · rcases mem_blocks hl with rfl | ⟨b, hb, hline⟩
    · exact hblank
    · obtain ⟨m, hm, rfl⟩ := List.mem_map.1 hb
      exact macroLines_oneLine (h.lists m hm) l hline

/-- Read line by line, a file includes its paths in their order, and nothing else. -/
theorem OneLined.inclusions (h : OneLined marker includes lists) :
    (lines (fileText includes lists marker)).filter (IsInclude ·) = includes.map inclusion := by
  have hblank : [""].filter (IsInclude ·) = [] := by decide
  rw [fileText_ended, lines_ended h.each, List.filter_append, fileLines_includes h.comment, hblank, List.append_nil]

end EntityGen.Listing
