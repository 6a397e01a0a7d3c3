import EntityGen.Listing
import EntityGen.Proofs.Text.Lines
import Mathlib.Data.List.Induction

namespace EntityGen

namespace Path

variable {p : Path} {c : Char}

theorem mem_includeText (hslash : c ≠ '/') (hback : c ≠ '\\') : c ∈ p.includeText.toList ↔ c ∈ p.text.toList := by
  rw [includeText, String.toList_ofList, List.mem_map]
  constructor
  · rintro ⟨d, hd, hc⟩
    split at hc
    · exact absurd hc.symm hslash
    · exact hc ▸ hd
  · exact fun hc => ⟨c, hc, if_neg hback⟩

theorem includeText_ne (h : p.text ≠ "") : p.includeText.toList ≠ [] := by
  rw [includeText, String.toList_ofList, ne_eq, List.map_eq_nil_iff, String.toList_eq_nil_iff]
  exact h

end Path

namespace Manifest

variable {variableName marker : String} {ps qs : List Path}

/-- What blanks tell apart in the paths. -/
def words (ps : List Path) : List (List Char) := ps.flatMap fun p => p.includeText.toList.splitOn ' '

def arguments (ps : List Path) : List Char := ps.flatMap fun p => ' ' :: p.includeText.toList

def opening (variableName marker : String) : List Char := (marker ++ "\nSET(" ++ variableName).toList

def closing : List Char := "PARENT_SCOPE)\n".toList

/-- The source files that a build takes from a manifest: what blanks tell apart after the variable, but
for the last. -/
def sources (variableName marker text : String) : List String :=
  ((((text.toList.drop (opening variableName marker).length).splitOn ' ').filter (· ≠ [])).map
    String.ofList).dropLast

theorem toList_text (variableName : String) (ps : List Path) (marker : String) :
    (text variableName ps marker).toList = opening variableName marker ++ (arguments ps ++ ' ' :: closing) := by
  have harguments : (String.join (ps.map fun p => " " ++ p.includeText)).toList = arguments ps := by
    rw [String.toList_join, List.flatMap_map]
    exact List.flatMap_congr fun p _ => String.toList_append
  have hclosing : " PARENT_SCOPE)\n".toList = ' ' :: closing := by decide
  rw [text, String.toList_append, String.toList_append, harguments, hclosing, opening, List.append_assoc]

theorem splitOn_arguments (ps : List Path) : (arguments ps).splitOn ' ' = [] :: words ps := by
  induction ps using List.reverseRecOn with
  | nil => rfl
  | append_singleton ps p ih =>
      have hconcat : arguments (ps ++ [p]) = arguments ps ++ ' ' :: p.includeText.toList := by simp [arguments]
      have hwords : words (ps ++ [p]) = words ps ++ p.includeText.toList.splitOn ' ' := by simp [words]
      rw [hconcat, hwords, List.splitOn_append_cons_self, ih, List.cons_append]

theorem text_eq_iff : text variableName ps marker = text variableName qs marker ↔ words ps = words qs := by
  constructor
  · intro h
    have hlist := congrArg String.toList h
    rw [toList_text, toList_text] at hlist
    have hsplit := congrArg (List.splitOn ' ') (List.append_cancel_right (List.append_cancel_left hlist))
    rw [splitOn_arguments, splitOn_arguments] at hsplit
    exact (List.cons.inj hsplit).2
  · intro h
    have harguments : arguments ps = arguments qs := by
      have hsplit : ∀ ts : List Path, [' '].intercalate ((arguments ts).splitOn ' ') = arguments ts :=
        fun ts => List.intercalate_splitOn ' '
      rw [← hsplit ps, splitOn_arguments, h, ← splitOn_arguments, hsplit]
    apply String.toList_injective
    rw [toList_text, toList_text, harguments]

theorem sources_text (variableName : String) (ps : List Path) (marker : String) :
    sources variableName marker (text variableName ps marker) =
      ((words ps).filter (· ≠ [])).map String.ofList := by
  have hclosing : closing.splitOn ' ' = [closing] := List.splitOn_eq_singleton (by decide)
  have hlast : [closing].filter (· ≠ []) = [closing] := by decide
  rw [sources, toList_text, List.drop_left, List.splitOn_append_cons_self, splitOn_arguments, hclosing,
    List.cons_append, List.filter_cons_of_neg (by simp), List.filter_append, hlast, List.map_append,
    List.map_singleton, List.dropLast_concat]

theorem words_whole {w : List Char} (h : w ∈ words ps) : ' ' ∉ w := by
  obtain ⟨p, -, hw⟩ := List.mem_flatMap.1 h
  exact Text.not_mem_piece hw

theorem words_of_blankless (h : ∀ p ∈ ps, ' ' ∉ p.text.toList) :
    words ps = ps.map fun p => p.includeText.toList := by
  induction ps with
  | nil => rfl
  | cons p ps ih =>
      obtain ⟨hp, hps⟩ := List.forall_mem_cons.1 h
      have hone : p.includeText.toList.splitOn ' ' = [p.includeText.toList] :=
        List.splitOn_eq_singleton (mt (Path.mem_includeText (by decide) (by decide)).1 hp)
      rw [words, List.flatMap_cons, ← words, ih hps, hone, List.singleton_append, List.map_cons]

theorem sources_eq_iff (hne : ∀ p ∈ ps, p.text ≠ "") :
    sources variableName marker (text variableName ps marker) = ps.map Path.includeText ↔
      ∀ p ∈ ps, ' ' ∉ p.text.toList := by
  rw [sources_text]
  constructor
  · intro h p hp hblank
    have hmem : p.includeText ∈ ((words ps).filter (· ≠ [])).map String.ofList := h ▸ List.mem_map_of_mem hp
    obtain ⟨w, hw, he⟩ := List.mem_map.1 hmem
    have hwhole := words_whole (List.mem_filter.1 hw).1
    rw [← Path.mem_includeText (by decide) (by decide), ← he, String.toList_ofList] at hblank
    exact hwhole hblank
  · intro h
    have hkeep : ∀ w ∈ words ps, decide (w ≠ []) = true := by
      rw [words_of_blankless h]
      intro w hw
      obtain ⟨p, hp, rfl⟩ := List.mem_map.1 hw
      exact decide_eq_true (Path.includeText_ne (hne p hp))
    rw [List.filter_eq_self.2 hkeep, words_of_blankless h, List.map_map]
    exact List.map_congr_left fun p _ => String.ofList_toList

/-- Two manifests are the same text if and only if their paths have the same words. The build reads the
paths that were listed, one a file and in order, if and only if none has a blank in it; such paths are
told by the text. -/
theorem sources_told (variableName marker : String) (ps qs : List Path) (hps : ∀ p ∈ ps, p.text ≠ "")
    (hqs : ∀ q ∈ qs, q.text ≠ "") :
    (text variableName ps marker = text variableName qs marker ↔ words ps = words qs) ∧
    (sources variableName marker (text variableName ps marker) = ps.map Path.includeText ↔
      ∀ p ∈ ps, ' ' ∉ p.text.toList) ∧
    ((∀ p ∈ ps, ' ' ∉ p.text.toList) → (∀ q ∈ qs, ' ' ∉ q.text.toList) →
      text variableName ps marker = text variableName qs marker →
      ps.map Path.includeText = qs.map Path.includeText) := by
  refine ⟨text_eq_iff, sources_eq_iff hps, fun hp hq h => ?_⟩
  rw [← (sources_eq_iff hps).2 hp, ← (sources_eq_iff hqs).2 hq, h]

theorem sources_told_backslash :
    sources "SRC" "# m" (text "SRC" ["out/a.hpp", "out\\sub/b.hpp"] "# m") = ["out/a.hpp", "out/sub/b.hpp"] ∧
    text "SRC" ["out/a.hpp", "out\\sub/b.hpp"] "# m" = text "SRC" ["out/a.hpp", "out/sub/b.hpp"] "# m" ∧
    (["out/a.hpp", "out\\sub/b.hpp"] : List Path).map Path.includeText =
      (["out/a.hpp", "out/sub/b.hpp"] : List Path).map Path.includeText := by
  obtain ⟨htext, hsources, htold⟩ := sources_told "SRC" "# m" ["out/a.hpp", "out\\sub/b.hpp"]
    ["out/a.hpp", "out/sub/b.hpp"] (by decide) (by decide)
  have hsame := htext.2 (by decide)
  exact ⟨hsources.2 (by decide), hsame, htold (by decide) (by decide) hsame⟩

/-- One file with a blank in its name is listed as two files are. -/
theorem blank_splits : text "SRC" ["out/a b.hpp"] "# m" = text "SRC" ["out/a", "b.hpp"] "# m" ∧
    (["out/a b.hpp"] : List Path).map Path.includeText ≠ (["out/a", "b.hpp"] : List Path).map Path.includeText ∧
    sources "SRC" "# m" (text "SRC" ["out/a b.hpp"] "# m") = ["out/a", "b.hpp"] := by
  decide +kernel

end Manifest

end EntityGen
