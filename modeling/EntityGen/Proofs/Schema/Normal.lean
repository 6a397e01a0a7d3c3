import EntityGen.Proofs.Run.Contents
import EntityGen.Proofs.Schema.Validation

namespace EntityGen

open Text (Solid trim allBlank)
open Text.Utf8 (Bytes encode)

namespace Schema

/-- The names of a schema, and the lists that it goes into. -/
structure SolidNames (s : Schema) : Prop where
  name : Solid s.name
  scope : ∀ ns, s.scope = some ns → Solid ns
  fields : ∀ f ∈ s.fields, Solid f.name ∧ Solid f.type
  xlists : ∀ x ∈ s.xlists, Solid x.list ∧ Solid x.target

structure Normal (s : Schema) : Prop extends SolidNames s where
  includeIn : ∀ t ∈ s.includeIn, Solid t

variable {b b' : Bytes} {d : Document} {s s' : Schema}

theorem forall₂_right {α β : Type} {R : α → β → Prop} {xs : List α} {ys : List β} {y : β}
    (h : List.Forall₂ R xs ys) (hy : y ∈ ys) : ∃ x ∈ xs, R x y := by
  induction h with
  | nil => cases hy
  | cons hxy _ ih =>
      rcases List.mem_cons.1 hy with rfl | hy
      · exact ⟨_, List.mem_cons_self, hxy⟩
      · obtain ⟨x, hx, hr⟩ := ih hy
        exact ⟨x, List.mem_cons_of_mem _ hx, hr⟩

theorem XListBecomes.solid {texts : List String} {x : XListDirective} (h : XListBecomes texts x)
    (hv : ValidXList texts) : Solid x.list ∧ Solid x.target := by
  obtain ⟨list, target, rfl, hlist, htarget⟩ := h
  rw [hlist, htarget]
  exact ⟨Text.solid_trim (hv.solid list (by simp)), Text.solid_trim (hv.solid target (by simp))⟩

theorem Document.Becomes.solidNames (h : d.Becomes s) (hv : d.Valid) : s.SolidNames where
  name := h.name.solid
  scope ns hns := ((h.scope ns).1 hns).solid
  fields g hg := by
    obtain ⟨f, -, hf⟩ := forall₂_right h.fields hg
    exact ⟨hf.name.solid, hf.type.solid⟩
  xlists x hx := by
    obtain ⟨texts, htexts, hx⟩ := forall₂_right h.xlists hx
    exact hx.solid (hv.xlisted texts htexts)

theorem parse_ok (h : parse b = .ok s) : ∃ d, Document.read b = .ok d ∧ d.Becomes s ∧ d.Valid := by
  rw [parse] at h
  cases hd : Document.read b with
  | error f => rw [hd] at h; cases h
  | ok d =>
      simp only [hd] at h
      rcases d.validate_cases with ⟨e, he, -⟩ | ⟨s', hs, hbecomes, hvalid⟩
      · rw [he] at h; cases h
      · rw [hs] at h
        cases h
        exact ⟨d, rfl, hbecomes, hvalid⟩

/-- In every schema that is read from a document, the names, the types and the lists with their files have no
white space around them. The files that are to include the header are those of the document, none of them
blank: the schema is normal exactly if none has white space around it. Such a file and the file of a list
that are alike but for white space are the same file exactly if the first has none. -/
theorem parsed_normal (h : parse b = .ok s) (h' : parse b' = .ok s') :
    s.SolidNames ∧
    (∃ d, Document.read b = .ok d ∧ s.includeIn = d.includeIn) ∧
    (∀ t ∈ s.includeIn, allBlank t = false) ∧
    (s.Normal ↔ ∀ t ∈ s.includeIn, trim t = t) ∧
    ∀ t ∈ s.includeIn, ∀ x ∈ s'.xlists, trim t = trim x.target → (t = x.target ↔ Solid t) := by
  obtain ⟨d, hd, hbecomes, hvalid⟩ := parse_ok h
  obtain ⟨d', -, hbecomes', hvalid'⟩ := parse_ok h'
  have hnames := hbecomes.solidNames hvalid
  have hblank : ∀ t ∈ s.includeIn, allBlank t = false := fun t ht => hvalid.includeIn t (hbecomes.includeIn ▸ ht)
  have hnormal : s.Normal ↔ ∀ t ∈ s.includeIn, trim t = t := by
    refine ⟨fun hn t ht => (hn.includeIn t ht).trim, fun hall => ⟨hnames, fun t ht => ?_⟩⟩
    rw [← hall t ht]
    exact Text.solid_trim (hblank t ht)
  refine ⟨hnames, ⟨d, hd, hbecomes.includeIn⟩, hblank, hnormal, fun t _ x hx htrim => ?_⟩
  have htarget := ((hbecomes'.solidNames hvalid').xlists x hx).2
  exact htarget.eq_of_trim (htrim.trans htarget.trim)

def spacedText : Bytes :=
  encode "\x7b\"name\":\" A \",\"xlisted\":[[\"ALL \",\" all.hpp\"]],\"include_in\":[\" all.hpp\"]\x7d"

def spacedSchema : Schema where
  name := "A"
  xlists := [⟨"ALL", "all.hpp"⟩]
  includeIn := [" all.hpp"]

theorem parse_spacedText : parse spacedText = .ok spacedSchema := by decide +kernel

theorem spaced_names : spacedSchema.SolidNames ∧ ¬ spacedSchema.Normal ∧
    ((" all.hpp" : String) = "all.hpp" ↔ Solid " all.hpp") := by
  obtain ⟨hnames, -, -, hnormal, hsame⟩ := parsed_normal parse_spacedText parse_spacedText
  have hnot : ¬ ∀ t ∈ spacedSchema.includeIn, trim t = t := by decide +kernel
  exact ⟨hnames, fun h => hnot (hnormal.1 h),
    hsame " all.hpp" (by decide) ⟨"ALL", "all.hpp"⟩ (by decide) (by decide +kernel)⟩

end Schema

namespace Generator

open Schema (spacedText)

def spaced : Source := .inMemory [("A.json", some spacedText)]

/-- One document directs its entity twice to `all.hpp`; two files come of it. -/
theorem spaced_file_apart : Schema.parse spacedText = .ok Schema.spacedSchema ∧
    ¬ Schema.spacedSchema.Normal ∧
    (defaults.run spaced bare).outcome = .finished {
      generated := ["out/A.hpp", "out/all.hpp", "out/ all.hpp", "out/chai_bindings.hpp", "out/chai_bindings.cpp"]
      manifest := some "out/CMakeLists.txt"
      entities := 1
      failures := [] } := by
  have hnot : ¬ Text.Solid " all.hpp" := by decide +kernel
  refine ⟨Schema.parse_spacedText, fun h => hnot (h.includeIn " all.hpp" (by decide)), ?_⟩
  decide +kernel

end Generator

end EntityGen
