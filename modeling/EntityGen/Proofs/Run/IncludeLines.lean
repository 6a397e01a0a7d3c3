import EntityGen.Proofs.Listing.Lines
import EntityGen.Proofs.Mirroring
import EntityGen.Proofs.Run.References

namespace EntityGen

open Binding (IsInclude inclusion)
open Listing (firsts)
open Text (OneLine lines)
open Text.Utf8 (Bytes encode)

namespace Path

/-- Each path of the list has one spelling in generated files. -/
def SpelledAlike (ps : List Path) : Prop := ∀ p ∈ ps, ∀ q ∈ ps, p ≈ q → p.includeText = q.includeText

/-- Each spelling in generated files is that of one path. -/
def SpelledApart (ps : List Path) : Prop := ∀ p ∈ ps, ∀ q ∈ ps, p.includeText = q.includeText → p ≈ q

instance (ps : List Path) : Decidable (SpelledAlike ps) :=
  inferInstanceAs (Decidable (∀ p ∈ ps, ∀ q ∈ ps, p ≈ q → p.includeText = q.includeText))

instance (ps : List Path) : Decidable (SpelledApart ps) :=
  inferInstanceAs (Decidable (∀ p ∈ ps, ∀ q ∈ ps, p.includeText = q.includeText → p ≈ q))

def spellings (ps : List Path) : List String := (ps.map includeText).eraseDups

variable {p q : Path} {ps : List Path}

theorem length_spellings (ps : List Path) : (spellings ps).length = (firsts includeText ps).length := by
  rw [spellings, Listing.eraseDups_map, List.length_map]

theorem length_distinct (ps : List Path) :
    (Listing.Index.distinct ps).length = (firsts components ps).length := by
  rw [Listing.Index.distinct_eq]

theorem SpelledAlike.count (h : SpelledAlike ps) :
    (spellings ps).length = (Listing.Index.distinct ps).length ↔ SpelledApart ps := by
  rw [length_spellings, length_distinct]
  exact Listing.length_firsts h

theorem SpelledApart.count (h : SpelledApart ps) :
    (spellings ps).length = (Listing.Index.distinct ps).length ↔ SpelledAlike ps := by
  rw [length_spellings, length_distinct, eq_comm]
  exact Listing.length_firsts h

theorem includeText_of_slashes (h : '\\' ∉ p.text.toList) : p.includeText = p.text := by
  have hkeep : ∀ c ∈ p.text.toList, (if c = '\\' then '/' else c) = c := fun c hc =>
    if_neg fun he : c = '\\' => h (he ▸ hc)
  rw [includeText, List.map_congr_left hkeep, List.map_id', String.ofList_toList]

theorem spelledApart_of_slashes (h : ∀ p ∈ ps, '\\' ∉ p.text.toList) : SpelledApart ps := by
  intro p hp q hq he
  rw [includeText_of_slashes (h p hp), includeText_of_slashes (h q hq)] at he
  cases p
  cases q
  cases he
  exact Setoid.refl _

example : SpelledAlike ["out/a\\b.hpp", "out/a/b.hpp"] ∧ ¬ SpelledApart ["out/a\\b.hpp", "out/a/b.hpp"] := by
  decide +kernel

end Path

open EntityGen.Path (SpelledAlike SpelledApart spellings)

namespace Generator

variable {g : Generator} {source : Source} {d : Disk} {s : Pass} {T : Path} {hs : List Heading}
  {documents ps : List Path}

/-- Whether a document asks a path to include its header. -/
def directs (g : Generator) (T : Path) (h : Heading) : Bool :=
  h.schema.includeIn.any fun t => g.directed h.document t ≈ T

def including (g : Generator) (hs : List Heading) (T : Path) : List Path :=
  (hs.filter (g.directs T)).map Heading.output

theorem included_eq (g : Generator) (hs : List Heading) (T : Path) :
    Listing.Index.included (hs.flatMap g.inclusions) T = spellings (g.including hs T) := by
  rw [Listing.Index.included, spellings, including, List.map_map]
  induction hs using List.reverseRecOn with
  | nil => rfl
  | append_singleton hs h ih =>
      rw [List.flatMap_append, List.flatMap_singleton, List.filter_append, List.map_append, List.filter_append,
        List.map_append, Listing.eraseDups_append_congr ih]
      have hnew : ((g.inclusions h).filter (·.1 ≈ T)).map Prod.snd =
          (h.schema.includeIn.filter fun t => g.directed h.document t ≈ T).map fun _ => h.output.includeText := by
        rw [inclusions, List.filter_map, List.map_map]
        rfl
      rw [hnew, Listing.eraseDups_append_same]
      by_cases hdirects : g.directs T h = true
      · have hne : (h.schema.includeIn.filter fun t => g.directed h.document t ≈ T) ≠ [] := by
          obtain ⟨t, ht, he⟩ := List.any_eq_true.1 hdirects
          exact List.ne_nil_of_mem (List.mem_filter.2 ⟨ht, he⟩)
        rw [if_neg hne, List.filter_cons_of_pos hdirects, List.filter_nil]
        rfl
      · have hnil : (h.schema.includeIn.filter fun t => g.directed h.document t ≈ T) = [] :=
          List.filter_eq_nil_iff.2 fun t ht he => hdirects (List.any_eq_true.2 ⟨t, ht, he⟩)
        rw [if_pos hnil, List.filter_cons_of_neg hdirects, List.filter_nil, List.map_nil, List.append_nil]

theorem headed_document {rest : List Path} {k : Heading} (hk : k ∈ g.headed source s rest) : k.document ∈ rest :=
  (g.headed_documents source s rest).subset (List.mem_map_of_mem hk)

theorem spelledAlike_of_tidy (hr : g.Reaches source d ⟨.documents documents, s⟩) (h : ∀ p ∈ documents, p.Tidy) :
    SpelledAlike (g.including (g.headed source s documents) T) := by
  intro p hp q hq he
  obtain ⟨k, hk, rfl⟩ := List.mem_map.1 hp
  obtain ⟨k', hk', rfl⟩ := List.mem_map.1 hq
  have hk := List.mem_of_mem_filter hk
  have hk' := List.mem_of_mem_filter hk'
  have hsame := Path.mirror_spelled (h _ (headed_document hk)) (h _ (headed_document hk')) (hr.takes k hk).2
    (hr.takes k' hk').2 he
  rw [hsame]

def listed (g : Generator) (hs : List Heading) (T : Path) : List (String × List String) :=
  Listing.grouped (((hs.flatMap g.entries).filter (·.1 ≈ T)).map Prod.snd)

theorem section_lines (h : ∀ p ∈ ps, OneLine p.text) :
    lines (.join ((spellings ps).map Listing.includeLine)) = (spellings ps).map inclusion ++ [""] := by
  rw [Binding.includes_ended, Text.lines_ended]
  intro l hl
  obtain ⟨i, hi, rfl⟩ := List.mem_map.1 hl
  obtain ⟨p, hp, rfl⟩ := List.mem_map.1 (List.mem_eraseDups.1 hi)
  exact Binding.oneLine_inclusion (Path.oneLine_includeText (h p hp))

/-- A listing has one include line for each spelling of the headers that are directed to it. These are as
many as the headers themselves if no header has two spellings and no two headers have one: documents that
are spelled plainly see to the first, paths without backslashes to the second. -/
theorem include_lines (g : Generator) (source : Source) (d : Disk) (hd : source.paths d = .ok documents)
    (hhs : g.headed source (g.begin d) documents = hs) {rest : List (Path × String)} {text : String}
    (hr : g.Reaches source d ⟨.listings ((T, text) :: rest), s⟩) :
    text = Listing.fileText (spellings (g.including hs T)) (g.listed hs T) g.config.marker ∧
      ((∀ p ∈ g.including hs T, OneLine p.text) →
        lines (.join ((spellings (g.including hs T)).map Listing.includeLine)) =
          (spellings (g.including hs T)).map inclusion ++ [""]) ∧
      (Listing.OneLined g.config.marker (spellings (g.including hs T)) (g.listed hs T) →
        (lines text).filter (IsInclude ·) = (spellings (g.including hs T)).map inclusion) ∧
      (SpelledAlike (g.including hs T) →
        ((spellings (g.including hs T)).length = (Listing.Index.distinct (g.including hs T)).length ↔
          SpelledApart (g.including hs T))) ∧
      (SpelledApart (g.including hs T) →
        ((spellings (g.including hs T)).length = (Listing.Index.distinct (g.including hs T)).length ↔
          SpelledAlike (g.including hs T))) ∧
      ((∀ p ∈ documents, p.Tidy) → SpelledAlike (g.including hs T)) ∧
      ((∀ p ∈ g.including hs T, '\\' ∉ p.text.toList) → SpelledApart (g.including hs T)) := by
  subst hhs
  have ha := hr.accounts hd (.inl (finishing_listings _))
  have hstart : g.Reaches source d ⟨.documents documents, g.begin d⟩ := ⟨hr.valid, documents, hd, .refl⟩
  have htext : text = Listing.fileText (spellings (g.including (g.headed source (g.begin d) documents) T))
      (g.listed (g.headed source (g.begin d) documents) T) g.config.marker := by
    obtain ⟨t, -, heq⟩ := List.mem_map.1 (hr.planned.subset List.mem_cons_self)
    cases heq
    rw [Listing.Index.text, ha.index.includes, ha.index.lists, ← included_eq]
    rfl
  refine ⟨htext, section_lines, fun hlines => ?_, SpelledAlike.count, SpelledApart.count,
    spelledAlike_of_tidy hstart, Path.spelledApart_of_slashes⟩
  rw [htext]
  exact hlines.inclusions

def sharedText : Bytes := encode "\x7b\"name\":\"A\",\"include_in\":[\"all.hpp\"]\x7d"

def respelled : Source := .inMemory [("A.json", some sharedText), ("./A.json", some sharedText)]

def sharedSchema : Schema := { name := "A", includeIn := ["all.hpp"] }

def respelledHeadings : List Heading :=
  [⟨"A.json", sharedSchema, "out/A.hpp"⟩, ⟨"./A.json", sharedSchema, "out/./A.hpp"⟩]

def respelledReport : Report where
  generated := ["out/A.hpp", "out/all.hpp", "out/chai_bindings.hpp", "out/chai_bindings.cpp"]
  manifest := some "out/CMakeLists.txt"
  entities := 2
  failures := []

theorem respelled_headed :
    defaults.headed respelled (defaults.begin bare) ["A.json", "./A.json"] = respelledHeadings := by
  decide +kernel

theorem respelled_outcome : (defaults.run respelled bare).outcome = .finished respelledReport := by
  decide +kernel

/-- The run generates one header, and the file that includes it has two lines for it. -/
theorem header_included_twice : (defaults.run respelled bare).outcome = .finished respelledReport ∧
    Listing.Index.distinct (defaults.including respelledHeadings "out/all.hpp") = ["out/A.hpp"] ∧
    ∃ text, (defaults.run respelled bare).disk.read "out/all.hpp" = .ok (encode text) ∧
      (lines text).filter (IsInclude ·) = ["#include \"out/A.hpp\"", "#include \"out/./A.hpp\""] := by
  refine ⟨respelled_outcome, by decide +kernel,
    Listing.fileText ["out/A.hpp", "out/./A.hpp"] [] defaults.config.marker, ?_, ?_⟩
  · decide +kernel
  · decide +kernel

theorem respelled_listing : ∃ text s,
    defaults.Reaches respelled bare ⟨.listings [("out/all.hpp", text)], s⟩ := by
  have hd : respelled.paths bare = .ok ["A.json", "./A.json"] := rfl
  obtain ⟨s, hv, hs, -, -⟩ := finished_documents hd respelled_outcome
  have hr : defaults.Reaches respelled bare ⟨.documents [], s⟩ := ⟨hv, _, hd, Leads.documents.1 s hs⟩
  have htargets : s.index.targets = ["out/all.hpp"] := by
    rw [(hr.accounts hd (.inr rfl)).index.targets_eq, respelled_headed]
    decide +kernel
  have hlistings := hr.step .listings
  rw [Listing.Index.files, htargets] at hlistings
  exact ⟨_, s, hlistings⟩

theorem respelled_lines : ∃ text s, respelled.paths bare = .ok ["A.json", "./A.json"] ∧
    defaults.headed respelled (defaults.begin bare) ["A.json", "./A.json"] = respelledHeadings ∧
    defaults.Reaches respelled bare ⟨.listings [("out/all.hpp", text)], s⟩ ∧
    (lines text).filter (IsInclude ·) = ["#include \"out/A.hpp\"", "#include \"out/./A.hpp\""] ∧
    SpelledApart (defaults.including respelledHeadings "out/all.hpp") ∧
    ¬ SpelledAlike (defaults.including respelledHeadings "out/all.hpp") := by
  obtain ⟨text, s, hr⟩ := respelled_listing
  obtain ⟨-, -, hlines, -, hapart, -, hslashes⟩ :=
    include_lines defaults respelled bare rfl respelled_headed hr
  have hpaths : ∀ p ∈ defaults.including respelledHeadings "out/all.hpp", '\\' ∉ p.text.toList := by
    decide +kernel
  have hnot : ¬ SpelledAlike (defaults.including respelledHeadings "out/all.hpp") := by
    rw [← hapart (hslashes hpaths)]
    decide +kernel
  refine ⟨text, s, rfl, respelled_headed, hr, ?_, hslashes hpaths, hnot⟩
  rw [hlines ⟨by decide +kernel, by decide +kernel, by decide +kernel, by decide +kernel⟩]
  decide +kernel

end Generator

end EntityGen
