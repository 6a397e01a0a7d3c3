import EntityGen.Proofs.Listing.Lines
import EntityGen.Proofs.Text.Splicing

namespace EntityGen.Listing

open Binding (inclusion)
open Text

variable {marker : String} {includes : List String} {lists : List (String × List String)}
  {blocks : List (List String)}

/-- The lines of a list without what makes them go on. -/
def macroParts (l : String × List String) : List String := ("#define " ++ l.1) :: l.2.map entryLine

def macroLine (l : String × List String) : String :=
  "#define " ++ l.1 ++ .join (l.2.map fun e => "     X(" ++ e ++ ")")

def macroBlocks (lists : List (String × List String)) : List (List String) := lists.map fun l => [macroLine l]

theorem intercalate_cons (a l : String) (ls : List String) :
    a.intercalate (l :: ls) = l ++ .join (ls.map (a ++ ·)) := by
  induction ls generalizing l with
  | nil => simp
  | cons m ms ih =>
      rw [String.intercalate_cons_cons, ih, List.map_cons, String.join_cons]
      simp only [String.append_assoc]

theorem macroParts_joined (l : String × List String) : " ".intercalate (macroParts l) = macroLine l := by
  have hentry : ∀ e, " " ++ entryLine e = "     X(" ++ e ++ ")" := fun e => by
    simp [entryLine, ← String.toList_inj]
  rw [macroParts, intercalate_cons, macroLine, List.map_map]
  simp only [Function.comp_def, hentry]

/-- The marker is one line that does not go on, and what goes into the file is on one line and holds no
backslash. -/
structure Legible (marker : String) (includes : List String) (lists : List (String × List String)) : Prop where
  marker : Closed marker
  includes : ∀ p ∈ includes, Flat p
  lists : ∀ l ∈ lists, Flat l.1 ∧ ∀ e ∈ l.2, Flat e

instance (marker : String) (includes : List String) (lists : List (String × List String)) :
    Decidable (Legible marker includes lists) :=
  decidable_of_iff (Closed marker ∧ (∀ p ∈ includes, Flat p) ∧ ∀ l ∈ lists, Flat l.1 ∧ ∀ e ∈ l.2, Flat e)
    ⟨fun h => ⟨h.1, h.2.1, h.2.2⟩, fun h => ⟨h.marker, h.includes, h.lists⟩⟩

theorem inclusion_flat {p : String} (h : Flat p) : Flat (inclusion p) :=
  (Flat.append (by decide) h).append (by decide)

theorem macroParts_flat {l : String × List String} (h : Flat l.1 ∧ ∀ e ∈ l.2, Flat e) :
    ∀ line ∈ macroParts l, Flat line := by
  refine List.forall_mem_cons.2 ⟨Flat.append (by decide) h.1, fun line hline => ?_⟩
  obtain ⟨e, he, rfl⟩ := List.mem_map.1 hline
  exact (Flat.append (by decide) (h.2 e he)).append (by decide)

theorem macroLine_flat {l : String × List String} (h : Flat l.1 ∧ ∀ e ∈ l.2, Flat e) : Flat (macroLine l) := by
  rw [← macroParts_joined]
  exact flat_intercalate (by decide) (macroParts_flat h)

/-- The lines between the marker and the lists, which come in blocks. -/
def front (includes : List String) (blocks : List (List String)) : List String :=
  ["#pragma once", ""] ++ includes.map inclusion ++ if includes ≠ [] ∧ blocks ≠ [] then [""] else []

def body (includes : List String) (blocks : List (List String)) : List String :=
  front includes blocks ++ [""].intercalate blocks

theorem front_map {α : Type} (includes : List String) (f g : α → List String) (ls : List α) :
    front includes (ls.map f) = front includes (ls.map g) := by
  simp only [front, ne_eq, List.map_eq_nil_iff]

theorem mem_front {l : String} (h : l ∈ front includes blocks) :
    l = "#pragma once" ∨ l = "" ∨ ∃ p ∈ includes, inclusion p = l := by
  simp only [front, List.mem_append, List.mem_cons, List.not_mem_nil, or_false, List.mem_map] at h
  rcases h with ((h | h) | h) | h
  · exact .inl h
  · exact .inr (.inl h)
  · exact .inr (.inr h)
  · split at h
    · exact .inr (.inl (List.mem_singleton.1 h))
    · cases h

theorem mem_macros {l : String} (h : l ∈ [""].intercalate (macroBlocks lists)) :
    l = "" ∨ ∃ m ∈ lists, macroLine m = l := by
  rcases mem_blocks h with rfl | ⟨b, hb, hl⟩
  · exact .inl rfl
  · obtain ⟨m, hm, rfl⟩ := List.mem_map.1 hb
    exact .inr ⟨m, hm, (List.mem_singleton.1 hl).symm⟩

theorem fileText_body (marker : String) (includes : List String) (lists : List (String × List String)) :
    fileText includes lists marker = ended (marker :: body includes (lists.map macroLines)) := by
  rw [fileText_ended, fileLines, body, front]
  simp

theorem spliced_fileText (h : Legible marker includes lists) : spliced (fileText includes lists marker) =
    ended (marker :: body includes (macroBlocks lists)) := by
  have hlines : lists.map macroLines = (lists.map macroParts).map (carried " \\") := by
    rw [List.map_map]
    rfl
  have hjoined : macroBlocks lists = (lists.map macroParts).map fun b => [" ".intercalate b] := by
    simp [macroBlocks, List.map_map, Function.comp_def, macroParts_joined]
  have hparts : ∀ b ∈ lists.map macroParts, b ≠ [] ∧ ∀ l ∈ b, Closed l := by
    refine List.forall_mem_map.2 fun l hl => ⟨List.cons_ne_nil _ _, fun line hline => ?_⟩
    exact (macroParts_flat (h.lists l hl) line hline).closed
  have hfront : ∀ l ∈ marker :: front includes (lists.map macroLines), Closed l := by
    refine List.forall_mem_cons.2 ⟨h.marker, fun l hl => ?_⟩
    rcases mem_front hl with rfl | rfl | ⟨p, hp, rfl⟩
    · decide
    · decide
    · exact (inclusion_flat (h.includes p hp)).closed
  rw [fileText_body, body, ← List.cons_append, ended_append, spliced_ended hfront, body, ← List.cons_append,
    ended_append, macroBlocks, front_map includes macroLines fun l => [macroLine l], ← macroBlocks, hlines,
    spliced_blocks hparts, ← hjoined]

theorem body_finished (hincludes : ∀ p ∈ includes, Flat p) (h : ∀ b ∈ blocks, ∃ ls l, b = ls ++ [l] ∧ Flat l) :
    Finished (ended (marker :: body includes blocks)) := by
  rcases List.eq_nil_or_concat blocks with rfl | ⟨bs, b, rfl⟩
  · rcases List.eq_nil_or_concat includes with rfl | ⟨ps, p, rfl⟩
    · exact ended_finished [marker, "#pragma once"] (by decide)
    · have hp := inclusion_flat (hincludes p (by simp))
      simpa [body, front] using ended_finished (marker :: "#pragma once" :: "" :: ps.map inclusion) hp.closed
  · obtain ⟨ls, l, rfl, hl⟩ := h b (by simp)
    rw [List.concat_eq_append, body, intercalate_concat, ← List.append_assoc, ← List.append_assoc,
      ← List.cons_append]
    exact ended_finished _ hl.closed

theorem fileText_finished (h : Legible marker includes lists) : Finished (fileText includes lists marker) := by
  rw [fileText_body]
  refine body_finished h.includes (List.forall_mem_map.2 fun l hl => ?_)
  obtain ⟨ls, line, hparts⟩ := List.eq_nil_or_concat' (macroParts l) |>.resolve_left (List.cons_ne_nil _ _)
  refine ⟨ls.map (· ++ " \\"), line, ?_, macroParts_flat (h.lists l hl) line (by simp [hparts])⟩
  rw [macroLines, ← macroParts, hparts, carried_concat]

def IsDirective (name l : String) : Prop := Spans ("#" ++ name) "" l

instance (name l : String) : Decidable (IsDirective name l) := inferInstanceAs (Decidable (Spans _ _ _))

theorem isDefine_macroLine (l : String × List String) : IsDirective "define" (macroLine l) where
  begins := by simp [macroLine]
  ends := by simp

theorem isInclude_inclusion (p : String) : IsDirective "include" (inclusion p) where
  begins := by simp [inclusion]
  ends := by simp

theorem not_define_inclusion (p : String) : ¬ IsDirective "define" (inclusion p) := by
  intro h
  have := h.begins
  simp [inclusion] at this

theorem not_include_macroLine (l : String × List String) : ¬ IsDirective "include" (macroLine l) := by
  intro h
  have := h.begins
  simp [macroLine] at this

theorem front_not_define : ∀ l ∈ front includes blocks, ¬ IsDirective "define" l := by
  intro l hl
  rcases mem_front hl with rfl | rfl | ⟨p, -, rfl⟩
  · decide
  · decide
  · exact not_define_inclusion p

theorem macros_not_include : ∀ l ∈ [""].intercalate (macroBlocks lists) ++ [""], ¬ IsDirective "include" l := by
  intro l hl
  have hblank : ¬ IsDirective "include" "" := by decide
  rcases List.mem_append.1 hl with hl | hl
  · rcases mem_macros hl with rfl | ⟨m, -, rfl⟩
    · exact hblank
    · exact not_include_macroLine m
  · rwa [List.mem_singleton.1 hl]

theorem front_includes : (front includes blocks).filter (IsDirective "include" ·) = includes.map inclusion := by
  have hpragma : ["#pragma once", ""].filter (IsDirective "include" ·) = [] := by decide
  have hincludes : (includes.map inclusion).filter (IsDirective "include" ·) = includes.map inclusion :=
    List.filter_eq_self.2 (List.forall_mem_map.2 fun p _ => decide_eq_true (isInclude_inclusion p))
  have hgap : (if includes ≠ [] ∧ blocks ≠ [] then [""] else []).filter (IsDirective "include" ·) = [] := by
    split <;> decide
  rw [front, List.filter_append, List.filter_append, hpragma, hincludes, hgap, List.nil_append, List.append_nil]

theorem macros_defines : ([""].intercalate (macroBlocks lists) ++ [""]).filter (IsDirective "define" ·) =
    lists.map macroLine := by
  have hblank : [""].filter (IsDirective "define" ·) = [] := by decide
  rw [List.filter_append, hblank, List.append_nil]
  induction lists with
  | nil => rfl
  | cons l ls ih =>
      have hl : [macroLine l].filter (IsDirective "define" ·) = [macroLine l] :=
        List.filter_eq_self.2 (List.forall_mem_singleton.2 (decide_eq_true (isDefine_macroLine l)))
      by_cases hnil : ls = []
      · simpa [hnil, macroBlocks] using hl
      · rw [macroBlocks, List.map_cons, List.intercalate_cons_of_ne_nil (by simpa using hnil), ← macroBlocks,
          List.filter_append, List.filter_append, hl, hblank, ih, List.append_nil, List.singleton_append,
          List.map_cons]

/-- What a preprocessor reads after the marker: the inclusions in their order, then one definition a list,
in their order too. -/
structure Reads (includes : List String) (lists : List (String × List String)) (ls : List String) : Prop where
  defines : ls.filter (IsDirective "define" ·) = lists.map macroLine
  includes : ls.filter (IsDirective "include" ·) = includes.map inclusion
  includes_first : ∃ before after, ls = before ++ after ∧
    (∀ l ∈ before, ¬ IsDirective "define" l) ∧ ∀ l ∈ after, ¬ IsDirective "include" l

theorem body_reads (includes : List String) (lists : List (String × List String)) :
    Reads includes lists (body includes (macroBlocks lists) ++ [""]) where
  defines := by
    have hnone : (front includes (macroBlocks lists)).filter (IsDirective "define" ·) = [] :=
      List.filter_eq_nil_iff.2 fun l hl => by simpa using front_not_define l hl
    rw [body, List.append_assoc, List.filter_append, hnone, macros_defines, List.nil_append]
  includes := by
    have hnone : ([""].intercalate (macroBlocks lists) ++ [""]).filter (IsDirective "include" ·) = [] :=
      List.filter_eq_nil_iff.2 fun l hl => by simpa using macros_not_include l hl
    rw [body, List.append_assoc, List.filter_append, front_includes, hnone, List.append_nil]
  includes_first := ⟨_, _, List.append_assoc .., front_not_define, macros_not_include⟩

theorem body_oneLine (h : Legible marker includes lists) :
    ∀ l ∈ marker :: body includes (macroBlocks lists), OneLine l := by
  have hblank : OneLine "" := by decide
  refine List.forall_mem_cons.2 ⟨h.marker.oneLine, List.forall_mem_append.2 ⟨fun l hl => ?_, fun l hl => ?_⟩⟩
  · rcases mem_front hl with rfl | rfl | ⟨p, hp, rfl⟩
    · decide
    · exact hblank
    · exact (inclusion_flat (h.includes p hp)).oneLine
  · rcases mem_macros hl with rfl | ⟨m, hm, rfl⟩
    · exact hblank
    · exact (macroLine_flat (h.lists m hm)).oneLine

/-- With the lines that go on put together, a file of collected lists has the marker on its first line, and
after it one definition a list, with the entries on its line and nothing else, and one inclusion a path, all
before the first definition. No line is to follow its last one, neither before they are put together nor
after. -/
theorem directives_read (h : Legible marker includes lists) :
    (∃ ls, lines (spliced (fileText includes lists marker)) = marker :: ls ∧ Reads includes lists ls) ∧
    Finished (fileText includes lists marker) ∧ Finished (spliced (fileText includes lists marker)) := by
  refine ⟨⟨_, ?_, body_reads includes lists⟩, fileText_finished h, ?_⟩
  · rw [spliced_fileText h, lines_ended (body_oneLine h), List.cons_append]
  · rw [spliced_fileText h]
    exact body_finished h.includes (List.forall_mem_map.2 fun l hl => ⟨[], _, rfl, macroLine_flat (h.lists l hl)⟩)

def listed : List (String × List String) := [("NONE", []), ("ALL", ["A", "B", "A"])]

theorem directives_read_listed : Legible "// a\\b" ["out/A.hpp"] listed ∧
    (∃ ls, lines (spliced (fileText ["out/A.hpp"] listed "// a\\b")) = "// a\\b" :: ls ∧
      ls.filter (IsDirective "define" ·) = ["#define NONE", "#define ALL     X(A)     X(B)     X(A)"] ∧
      ls.filter (IsDirective "include" ·) = ["#include \"out/A.hpp\""]) ∧
    Finished (fileText ["out/A.hpp"] listed "// a\\b") := by
  have h : Legible "// a\\b" ["out/A.hpp"] listed := by decide
  obtain ⟨⟨ls, hls, hreads⟩, hfinished, -⟩ := directives_read h
  exact ⟨h, ⟨ls, hls, hreads.defines, hreads.includes⟩, hfinished⟩

end EntityGen.Listing
