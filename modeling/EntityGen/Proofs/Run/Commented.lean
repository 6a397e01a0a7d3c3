import EntityGen.Proofs.Manifest
import EntityGen.Proofs.Run.Handwritten
import EntityGen.Proofs.Text.Blank

namespace EntityGen

open Text
open FileSystem (overwritable)
open Text.Utf8 (Bytes encode)

namespace Manifest

variable {variableName marker : String} {ps : List Path}

def command (variableName : String) (ps : List Path) : String :=
  "SET(" ++ variableName ++ .join (ps.map fun p => " " ++ p.includeText) ++ " PARENT_SCOPE)\n"

theorem text_command (variableName : String) (ps : List Path) (marker : String) :
    text variableName ps marker = marker ++ "\n" ++ command variableName ps := by
  simp [text, command, ← String.toList_inj]

theorem lines_text : lines (text variableName ps marker) = marker :: lines (command variableName ps) ↔
    OneLine marker := by
  rw [text_command, lines_append, ← List.singleton_append, List.append_left_inj, lines_eq_singleton]

end Manifest

namespace Config

variable {c : Config}

def unmarked (c : Config) : List Char := c.marker.toList.dropWhile isCommentMark

/-- Nothing follows the comment marks of the marker, or white space only. -/
def Bare (c : Config) : Prop := ∃ marks blanks, marks ≠ [] ∧ c.marker.toList = marks ++ blanks ∧
  (∀ ch ∈ marks, isCommentMark ch) ∧ ∀ ch ∈ blanks, isBlank ch

/-- After the comment marks, line feeds stand only before or after all that is not white space. -/
def Unbroken (c : Config) : Prop := ∀ before after, c.unmarked = before ++ '\n' :: after →
  (∀ ch ∈ before, isBlank ch) ∨ ∀ ch ∈ after, isBlank ch

def remark (c : Config) : String := trim (trimStart isCommentMark c.marker)

theorem manifestMarker_eq (c : Config) : c.manifestMarker = "# " ++ c.remark := rfl

theorem unmarked_blank (h : c.validate = .ok ()) : (∀ ch ∈ c.unmarked, isBlank ch) ↔ c.Bare := by
  constructor
  · intro hblank
    have hcut : c.marker.toList = c.marker.toList.takeWhile isCommentMark ++ c.unmarked :=
      List.takeWhile_append_dropWhile.symm
    refine ⟨_, _, fun hmarks => ?_, hcut, fun ch hch => List.mem_takeWhile_imp hch, hblank⟩
    rw [hmarks, List.nil_append] at hcut
    have hmarker := (validate_ok_iff.1 h).1
    rw [allBlank, hcut, List.all_eq_true.2 hblank] at hmarker
    cases hmarker
  · rintro ⟨marks, blanks, -, hcut, hmarks, hblanks⟩ ch hch
    rw [unmarked, hcut, List.dropWhile_append_of_pos hmarks] at hch
    exact hblanks ch ((List.dropWhile_sublist _).subset hch)

theorem toList_trimStart (c : Config) : (trimStart isCommentMark c.marker).toList = c.unmarked :=
  String.toList_ofList

theorem remark_eq_empty (h : c.validate = .ok ()) : c.remark = "" ↔ c.Bare := by
  rw [← unmarked_blank h, remark, trim_eq_empty, allBlank_iff, toList_trimStart]

theorem remark_blank (c : Config) : (∃ ch ∈ c.remark.toList, isBlank ch = false) ↔ c.remark ≠ "" := by
  constructor
  · rintro ⟨ch, hch, -⟩ he
    rw [he] at hch
    cases hch
  · intro hne
    have hsolid : Solid c.remark := solid_trim (trim_ne_empty.1 hne)
    obtain ⟨ch, cs, hcs⟩ := List.exists_cons_of_ne_nil (mt String.toList_eq_nil_iff.1 hne)
    exact ⟨ch, by rw [hcs]; exact List.mem_cons_self, hsolid.first ch (by rw [hcs]; rfl)⟩

theorem oneLine_remark (c : Config) : OneLine c.remark ↔ c.Unbroken := by
  have hblank : isBlank '\n' = true := by decide
  rw [OneLine, remark, mem_trim hblank, toList_trimStart, Unbroken]
  constructor
  · intro h before after hcut
    by_contra hno
    rw [not_or] at hno
    exact h ⟨before, after, hcut, hno⟩
  · rintro h ⟨before, after, hcut, hbefore, hafter⟩
    exact (h before after hcut).elim hbefore hafter

theorem oneLine_manifestMarker (c : Config) : OneLine c.manifestMarker ↔ c.Unbroken := by
  have hmark : OneLine "# " := by decide
  rw [manifestMarker_eq, oneLine_append, oneLine_remark, and_iff_right hmark]

theorem comments_open (c : Config) : (∀ b, Opens "# " b → Opens c.manifestMarker b) ↔ c.remark = "" := by
  rw [manifestMarker_eq]
  constructor
  · intro h
    have hopen := h (encode "# ") (List.prefix_refl _)
    by_contra hne
    have hlength := hopen.length_le
    rw [encode_append, List.length_append] at hlength
    exact encode_ne_nil hne (List.length_eq_zero_iff.1 (by omega))
  · intro h b hb
    rwa [h]

/-- The manifest of a valid configuration opens with a comment. That is on one line, with the command after
it, if and only if line feeds stand only around what the marker says; and it says something if and only if the
marker is more than comment marks with white space after them. A build file is written over if and only if it
begins with the comment; any comment does for that if and only if the marker says nothing. -/
theorem manifest_commented (c : Config) (h : c.validate = .ok ()) :
    (∃ remark, c.manifestMarker = "# " ++ remark ∧ (OneLine remark ↔ c.Unbroken) ∧
      ((∃ ch ∈ remark.toList, isBlank ch = false) ↔ ¬ c.Bare)) ∧
    (∀ ps, lines (Manifest.text c.manifestVariable ps c.manifestMarker) =
      c.manifestMarker :: lines (Manifest.command c.manifestVariable ps) ↔ c.Unbroken) ∧
    (∀ (d : Disk) (p : Path) (b : Bytes), d.find p = .ok (.file b) →
      (overwritable d p c.manifestMarker = .ok true ↔ Opens c.manifestMarker b)) ∧
    ((∀ b, Opens "# " b → Opens c.manifestMarker b) ↔ c.Bare) := by
  refine ⟨⟨c.remark, c.manifestMarker_eq, c.oneLine_remark, ?_⟩, fun ps => ?_, fun d p b hb => ?_, ?_⟩
  · rw [remark_blank, ne_eq, remark_eq_empty h]
  · rw [Manifest.lines_text, oneLine_manifestMarker]
  · rw [Disk.overwritable_true c.manifestMarker_ne, hb]
    simp
  · rw [comments_open, remark_eq_empty h]

def framed : Config := { marker := "/**\n Generated, do not edit.\n" }

def buildText : Bytes := encode "# Build of the game.\nadd_library(game game.cpp)\n"

def besideBuild : Disk where
  workingDirectory := []
  nodes := [(["out"], .directory), (["out", "CMakeLists.txt"], .file buildText)]
  nodup := by decide

theorem manifest_commented_framed : framed.validate = .ok () ∧ framed.Unbroken ∧ ¬ framed.Bare ∧
    lines (Manifest.text framed.manifestVariable ["out/A.hpp"] framed.manifestMarker) =
      framed.manifestMarker :: lines (Manifest.command framed.manifestVariable ["out/A.hpp"]) ∧
    overwritable besideBuild "out/CMakeLists.txt" framed.manifestMarker ≠ .ok true := by
  have hvalid : framed.validate = .ok () := by decide +kernel
  obtain ⟨⟨remark, hmarker, hone, hwords⟩, hlines, hguard, -⟩ := manifest_commented framed hvalid
  have hremark : "Generated, do not edit." = remark := (String.append_right_inj "# ").1 hmarker
  subst hremark
  have hunbroken : framed.Unbroken := hone.1 (by decide)
  have hfind : besideBuild.find "out/CMakeLists.txt" = .ok (.file buildText) := by decide +kernel
  refine ⟨hvalid, hunbroken, hwords.1 ⟨'G', by decide⟩, (hlines _).2 hunbroken, ?_⟩
  exact mt (hguard _ _ _ hfind).1 (by decide +kernel)

def terse : Config := { marker := "//" }

def broken : Config := { marker := "// Generated.\nDo not edit." }

/-- A build file that begins with a comment of its own is lost to the manifest; and a comment goes on after
its line. -/
theorem build_file_lost : terse.validate = .ok () ∧ terse.manifestMarker = "# " ∧
    ((Generator.mk terse "out").run Generator.noDocuments besideBuild).disk.node? ["out", "CMakeLists.txt"] ≠
      some (.file buildText) ∧
    broken.validate = .ok () ∧ broken.manifestMarker = "# Generated.\nDo not edit." := by
  decide +kernel

end Config

end EntityGen
