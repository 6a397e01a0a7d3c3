import EntityGen.Proofs.Enumeration
import EntityGen.Proofs.Run.Contents
import Mathlib.Data.List.DropRight

namespace EntityGen

open Text.Utf8 (Bytes encode)

namespace Config

variable {c : Config}

theorem withoutDots_withoutDots (ext : String) : withoutDots (withoutDots ext) = withoutDots ext := by
  simp only [withoutDots, Text.trimStart, Text.trimStartList, String.toList_ofList, List.dropWhile_idempotent]

/-- What is generated has an extension, and none that a document has. -/
def Separates (c : Config) : Prop := Path.lastPart c.outputExt ≠ "" ∧ Path.lastPart c.outputExt ≠ c.schemaExt

instance (c : Config) : Decidable c.Separates := inferInstanceAs (Decidable (_ ∧ _))

theorem Separates.outputExt_ne (h : c.Separates) : c.outputExt ≠ "" := by
  intro he
  rw [Separates, he] at h
  exact h.1 rfl

/-- The check of a configuration is enough for extensions without a dot in them. -/
theorem separates_of_plain (hv : c.validate = .ok ()) (hne : c.outputExt ≠ "") (hdot : '.' ∉ c.outputExt.toList) :
    c.Separates := by
  rw [Separates, Path.lastPart_of_plain hdot]
  exact ⟨hne, (validate_ok_iff.1 hv).2.2.symm⟩

end Config

namespace Generator

variable {g : Generator} {source : Source} {d : Disk} {s : Pass} {p o root : Path} {documents ps : List Path}

theorem emit_fileName {e : Emitter} {text marker : String} (h : (e.emit o text marker).result = .ok ()) :
    o.fileName? ≠ none := by
  obtain ⟨s, hlast, hdots⟩ := Emitter.emit_undotted h
  rw [Path.fileName?_of_segments hlast hdots]
  exact Option.some_ne_none s

theorem headed_fileName {h : Heading} (hh : h ∈ g.headed source s documents) :
    g.entityPath? h.document = some h.output ∧ h.output.fileName? ≠ none := by
  induction documents generalizing s with
  | nil => cases hh
  | cons p rest ih =>
      rw [headed] at hh
      split at hh
      · cases hh
      · rcases List.mem_append.1 hh with hh | hh
        · rw [Option.mem_toList] at hh
          obtain ⟨rfl, -, ho, hr⟩ := heading?_eq_some hh
          exact ⟨ho, emit_fileName hr⟩
        · exact ih hh

theorem entityPath_extension (ho : g.entityPath? p = some o) (hne : g.config.outputExt ≠ "") (hn : o.fileName? ≠ none) :
    o.extension? = some (Path.lastPart g.config.outputExt) :=
  (Path.withExtension_extension ho hne).resolve_left hn

def laterSource (g : Generator) (root : Path) : DirectorySource := .of root g.config.schemaExt

theorem laterSource_extension (g : Generator) (root : Path) :
    (g.laterSource root).extension = g.config.schemaExt := Config.withoutDots_withoutDots _

theorem header_apart (hs : g.config.Separates) (hd : d.Named) (hps : (g.laterSource root).paths d = .ok ps)
    {h : Heading} (hh : h ∈ g.headed source s documents) (hp : p ∈ ps) {l : Location}
    (hl : d.locate h.output = .ok l) : d.locate ((g.laterSource root).file p) ≠ .ok l := by
  intro hl'
  obtain ⟨ho, hname⟩ := headed_fileName hh
  have hheader := entityPath_extension ho hs.outputExt_ne hname
  have hdocument := DirectorySource.file_extension hd hps hp
  obtain ⟨n, hn⟩ := Path.fileName?_of_extension hdocument
  have hsame := Path.extension?_of_place hname (by rw [hn]; exact Option.some_ne_none n) hl hl'
  rw [hheader, hdocument, laterSource_extension, Option.some.injEq] at hsame
  exact hs.2 hsame

/-- A header has no name and is never written, or it has an extension that is none of a document's if and
only if the last part of the output extension is not empty and not the extension of documents. Then no
enumeration takes the header of any run for a document. -/
theorem headers_not_enumerated (g : Generator) (root : Path) (d : Disk) (hd : d.Named)
    (hps : (g.laterSource root).paths d = .ok ps) :
    (∀ p o, g.entityPath? p = some o →
      (o.fileName? = none ∧ o.extension? = none ∧
        ∀ (e : Emitter) (text marker : String), (e.emit o text marker).result ≠ .ok ()) ∨
      o.fileName? ≠ none ∧
        (g.config.outputExt ≠ "" → ((∃ e, o.extension? = some e ∧ e ≠ "" ∧ e ≠ g.config.schemaExt) ↔
          g.config.Separates)) ∧
        (g.config.outputExt = "" → ∀ n, (g.output / p).fileName? = some n →
          '.' ∉ (Path.splitExtension n.toList).1 → o.extension? = none)) ∧
    (g.config.validate = .ok () → g.config.outputExt ≠ "" → '.' ∉ g.config.outputExt.toList →
      g.config.Separates) ∧
    (g.config.Separates → ∀ source d₀ documents, ∀ h ∈ g.headed source (g.begin d₀) documents, ∀ p ∈ ps,
      ∀ l, d.locate h.output = .ok l → d.locate ((g.laterSource root).file p) ≠ .ok l) := by
  refine ⟨fun p o ho => ?_, Config.separates_of_plain, fun hs source d₀ documents h hh p hp l hl =>
    header_apart hs hd hps hh hp hl⟩
  by_cases hname : o.fileName? = none
  · refine .inl ⟨hname, by rw [Path.extension?, hname, Option.bind_none], fun e text marker he => ?_⟩
    exact emit_fileName he hname
  · refine .inr ⟨hname, fun hne => ?_, fun he n hn hdot => ?_⟩
    · rw [entityPath_extension ho hne hname]
      constructor
      · rintro ⟨e, he, hempty, hschema⟩
        rw [← Option.some.inj he] at hempty hschema
        exact ⟨hempty, hschema⟩
      · intro hs
        exact ⟨_, rfl, hs.1, hs.2⟩
    · rw [entityPath?, he] at ho
      exact Path.withExtension_none_left ho hn hdot

theorem run_of_paths (hd : source.paths d = .ok documents) :
    g.run source d = g.run { source with paths := fun _ => .ok documents } d := by
  simp only [run, hd]
  rfl

def dotted : Generator := ⟨{ outputExtension := "gen.json" }, "in"⟩

def pureText : Bytes := encode "\x7b\"name\":\"A\"\x7d"

def home : Disk where
  workingDirectory := []
  nodes := [(["in"], .directory), (["in", "A.json"], .file pureText)]
  nodup := by decide

theorem home_names : home.names ["in"] = ["A.json"] := Disk.names_eq (by decide) (by decide)

theorem home_paths : (dotted.laterSource "in").paths home = .ok ["A.json"] :=
  (DirectorySource.paths_of_files (by decide +kernel) (by decide +kernel) (by decide) home_names
    (by decide +kernel)).trans (by decide +kernel)

def dottedDisk : Disk :=
  (dotted.run { (dotted.laterSource "in").source with paths := fun _ => .ok ["A.json"] } home).disk

def dottedNames : List String := ["A.gen.json", "A.json", "CMakeLists.txt", "chai_bindings.cpp", "chai_bindings.hpp"]

theorem dotted_names : dottedDisk.names ["in"] = dottedNames :=
  Disk.names_eq (by decide +kernel) (by decide +kernel)

theorem dotted_paths : (dotted.laterSource "in").paths dottedDisk = .ok ["A.gen.json", "A.json"] :=
  (DirectorySource.paths_of_files (by decide +kernel) (by decide +kernel) (by decide +kernel) dotted_names
    (by decide +kernel)).trans (by decide +kernel)

/-- The run generates a header, and an enumeration after it takes the header for a document. -/
theorem header_enumerated : dotted.config.validate = .ok () ∧
    (dotted.laterSource "in").paths home = .ok ["A.json"] ∧
    dotted.entityPath? "A.json" = some "in/A.gen.json" ∧
    (dotted.runDirectory "in" home).outcome = .finished {
      generated := ["in/A.gen.json", "in/chai_bindings.hpp", "in/chai_bindings.cpp"]
      manifest := some "in/CMakeLists.txt"
      entities := 1
      failures := [] } ∧
    (dotted.laterSource "in").paths (dotted.runDirectory "in" home).disk = .ok ["A.gen.json", "A.json"] := by
  have hrun : dotted.runDirectory "in" home =
      dotted.run { (dotted.laterSource "in").source with paths := fun _ => .ok ["A.json"] } home :=
    run_of_paths home_paths
  rw [hrun]
  exact ⟨by decide +kernel, home_paths, by decide +kernel, by decide +kernel, dotted_paths⟩

def mirrored : Generator := ⟨{}, "in"⟩

def built : Disk where
  workingDirectory := []
  nodes := [(["in"], .directory), (["in", "A.json"], .file pureText), (["in", "A.hpp"], .file [])]
  nodup := by decide

theorem built_names : built.names ["in"] = ["A.hpp", "A.json"] := Disk.names_eq (by decide) (by decide)

theorem built_paths : (mirrored.laterSource "in").paths built = .ok ["A.json"] :=
  (DirectorySource.paths_of_files (by decide +kernel) (by decide +kernel) (by decide) built_names
    (by decide +kernel)).trans (by decide +kernel)

theorem built_apart : built.Named ∧ (mirrored.laterSource "in").paths built = .ok ["A.json"] ∧
    mirrored.config.Separates ∧
    mirrored.headed (.inMemory [("A.json", some pureText)]) (mirrored.begin bare) ["A.json"] =
      [⟨"A.json", { name := "A" }, "in/A.hpp"⟩] ∧
    built.locate "in/A.hpp" = .ok ["in", "A.hpp"] ∧
    built.locate ((mirrored.laterSource "in").file "A.json") ≠ .ok ["in", "A.hpp"] := by
  have hd : built.Named := by decide +kernel
  obtain ⟨-, hplain, hapart⟩ := headers_not_enumerated mirrored "in" built hd built_paths
  have hs : mirrored.config.Separates := hplain (by decide +kernel) (by decide +kernel) (by decide +kernel)
  have hheaded : mirrored.headed (.inMemory [("A.json", some pureText)]) (mirrored.begin bare) ["A.json"] =
      [⟨"A.json", { name := "A" }, "in/A.hpp"⟩] := by decide +kernel
  have hplace : built.locate "in/A.hpp" = .ok ["in", "A.hpp"] := by decide +kernel
  refine ⟨hd, built_paths, hs, hheaded, hplace, ?_⟩
  exact hapart hs _ _ _ ⟨"A.json", { name := "A" }, "in/A.hpp"⟩ (by rw [hheaded]; simp) _ (by simp) _ hplace

end Generator

end EntityGen
