import EntityGen.Proofs.Run.References
import Mathlib.Data.List.Pairwise

namespace EntityGen

open EntityGen.Path (Level)
open Text.Utf8 (Bytes encode)

namespace Listing

/-- The same include lines, and the same lists with the same entries, each in some order. -/
structure Alike (is is' : List String) (ls ls' : List (String × List String)) : Prop where
  includes : is.Perm is'
  names : (ls.map Prod.fst).Perm (ls'.map Prod.fst)
  apart : (ls.map Prod.fst).Nodup
  entries : ∀ n es es', (n, es) ∈ ls → (n, es') ∈ ls' → es.Perm es'

theorem eraseDups_perm {l l' : List String} (h : l.Perm l') : l.eraseDups.Perm l'.eraseDups := by
  refine (List.perm_ext_iff_of_nodup (nodup_eraseDups l) (nodup_eraseDups l')).2 fun a => ?_
  rw [List.mem_eraseDups, List.mem_eraseDups, h.mem_iff]

theorem alike_of_perm {is is' : List String} {ps ps' : List (String × String)} (hi : is.Perm is')
    (hp : ps.Perm ps') : Alike is.eraseDups is'.eraseDups (grouped ps) (grouped ps') where
  includes := eraseDups_perm hi
  names := by
    rw [grouped_names, grouped_names]
    exact eraseDups_perm (hp.map _)
  apart := by
    rw [grouped_names]
    exact nodup_eraseDups _
  entries n es es' h h' := by
    rw [grouped_entries h, grouped_entries h']
    exact (hp.filter _).map _

end Listing

namespace Generator

variable {g : Generator} {source source' : Source} {d : Disk} {s : Pass} {c c' : Stage} {p q : Path}
  {documents : List Path} {fates : List Fate} {content : Path → Except Failure Bytes}
  {hs hs' : List Heading} {r : Report}

/-- Whenever the run asks for a document, it is served this. -/
def Serves (g : Generator) (source : Source) (d : Disk) (content : Path → Except Failure Bytes) : Prop :=
  ∀ p rest s, g.Reaches source d ⟨.documents (p :: rest), s⟩ → source.read s.emitter.disk p = content p

def served (g : Generator) (content : Path → Except Failure Bytes) (p : Path) : Option Heading :=
  match content p with
  | .error _ => none
  | .ok bytes =>
    match Schema.parse bytes, g.entityPath? p with
    | .ok schema, some output => some ⟨p, schema, output⟩
    | _, _ => none

theorem served_of_heading {h : Heading} (hh : g.heading? source s p = some h)
    (hread : source.read s.emitter.disk p = content p) : g.served content p = some h := by
  obtain ⟨rfl, ⟨bytes, hb, hs⟩, ho, -⟩ := heading?_eq_some hh
  simp only [served, ← hread, hb, hs, ho]

/-- Where no document fails, each has the header that its content gives, and is bound if it asks for that. -/
theorem Fared.served (h : g.Fared source s documents fates)
    (hr : g.Reaches source d ⟨.documents documents, s⟩) (hserves : g.Serves source d content)
    (hclean : fates.filterMap Fate.failure? = []) :
    fates.filterMap Fate.heading? = documents.filterMap (g.served content) ∧
      fates.filterMap Fate.bound? =
        (documents.filterMap (g.served content)).filter (·.schema.wants g.config.bindingFlag) := by
  induction h with
  | nil => exact ⟨rfl, rfl⟩
  | @cons s s' p rest fate fates hfate hp _ ih =>
      rw [List.filterMap_eq_nil_iff] at hclean
      obtain ⟨hnone, hclean⟩ := List.forall_mem_cons.1 hclean
      obtain ⟨hheadings, hbound⟩ := ih (hr.step (.document hp)) (List.filterMap_eq_nil_iff.2 hclean)
      have hread := hserves p rest s hr
      cases hfate with
      | passedOver | unwritten | duplicate | clash => cases hnone
      | headed hh hwants =>
          have hserved := served_of_heading hh hread
          simp [List.filterMap_cons, hserved, hheadings, hbound, hwants]
      | bound hh hwants =>
          have hserved := served_of_heading hh hread
          simp [hserved, hheadings, hbound, hwants]

theorem Turn.step {text marker : String} (h : g.Turn source c p text marker) (hf : Finishing c.phase) :
    ∃ c', g.Step source c c' := by
  cases h with
  | header => exact absurd rfl (hf _)
  | listing => exact ⟨_, .listing⟩
  | binding => exact ⟨_, .binding⟩
  | manifest => exact ⟨_, .manifest⟩

theorem Step.told (h : g.Step source c c') (hf : Finishing c.phase) :
    c.pass.failures <+: c'.pass.failures := by
  have hwrite : ∀ (s : Pass) (p : Path) (text marker : String),
      s.failures <+: (s.writeOnce p text marker).1.failures := by
    intro s p text marker
    obtain ⟨landing, -, he, -⟩ := writeOnce_lands s p text marker
    exact ⟨_, he.symm⟩
  cases h with
  | document => exact absurd rfl (hf _)
  | listings | bindings => exact List.prefix_rfl
  | listing | binding | manifest => exact hwrite _ _ _ _

theorem Leads.told (h : g.Leads source c c') (hf : Finishing c.phase) :
    c.pass.failures <+: c'.pass.failures := by
  induction h with
  | refl => exact List.prefix_rfl
  | tail hl hs ih => exact ih.trans (hs.told (Leads.finishing hl hf))

theorem Reaches.clean_node {text marker : String} (h : g.Reaches source d c) (hp : g.Plain source d)
    (ht : d.IsTree) (hturn : g.Turn source c p text marker) (hf : Finishing c.phase)
    (hlast : g.Reaches source d c') (he : g.Ended source c') (hclean : c'.pass.failures = []) :
    ∃ l, c'.pass.emitter.disk.locate p = .ok l ∧
      c'.pass.emitter.disk.node? l = some (.file (encode text)) := by
  obtain ⟨c₁, hs⟩ := hturn.step hf
  have hleads := (h.step hs).leads hlast he
  obtain ⟨landing, -, htold, hdone⟩ := writeOnce_lands c.pass p text marker
  have hnone : landing = none := by
    have hprefix := Leads.told hleads (hs.finishing hf)
    rw [hclean, List.prefix_nil, hturn.pass hf hs, htold] at hprefix
    cases landing with
    | none => rfl
    | some f => simp at hprefix
  rw [hnone] at hdone
  exact h.turn_node hp ht hturn hf hs hdone hleads

theorem Leads.shared_turn (source : Source) {f : Path × String} (hf : f ∈ g.sharedFiles s) :
    ∃ c, g.Leads source ⟨.documents [], s⟩ c ∧ Finishing c.phase ∧
      g.Turn source c f.1 f.2 g.config.marker := by
  rcases List.mem_append.1 hf with hf | hf
  · obtain ⟨rest, s', hl⟩ : ∃ rest s', g.Leads source ⟨.listings (s.index.files g.config.marker), s⟩
        ⟨.listings (f :: rest), s'⟩ := Leads.listing_stage hf s
    exact ⟨_, .head .listings hl, finishing_listings _, .listing⟩
  · obtain ⟨rest, s', hl⟩ : ∃ rest s', g.Leads source
        ⟨.bindings (g.bindingFiles s), g.writeAll s (s.index.files g.config.marker)⟩
        ⟨.bindings (f :: rest), s'⟩ := Leads.stage (fun _ _ _ _ => .binding) hf _
    exact ⟨_, (Leads.listed s).trans hl, finishing_bindings _, .binding⟩

/-- The paths that a run writes, but for the manifest's. -/
def Outputs (g : Generator) (hs : List Heading) (q : Path) : Prop :=
  (∃ h ∈ hs, h.output ≈ q) ∨ (∃ h ∈ hs, ∃ u ∈ h.schema.targets, g.directed h.document u ≈ q) ∨
    g.output / (g.config.bindingHeader : Path) ≈ q ∨ g.output / (g.config.bindingSource : Path) ≈ q

def bindingEntries (g : Generator) (hs : List Heading) : List Binding.Entry :=
  (hs.filter (·.schema.wants g.config.bindingFlag)).map fun h =>
    ⟨.ofSchema h.schema g.config.bindingClassSuffix, h.output.includeText⟩

/-- The report and the disk of a run that wrote these headers, if nothing failed. -/
structure Leaves (g : Generator) (hs : List Heading) (r : Report) (D : Disk) : Prop where
  generated : ∀ q, (∃ p ∈ r.generated, p ≈ q) ↔ g.Outputs hs q
  manifest : r.manifest = some g.manifestPath
  headers : ∀ h ∈ hs, ∃ k, latest hs h.output = some k ∧
    D.read h.output = .ok (encode (g.headerText k))
  listings : ∀ h ∈ hs, ∀ t ∈ h.schema.targets, ∃ p ∈ r.generated, p ≈ g.directed h.document t ∧
    D.read p = .ok (encode (g.listing hs (g.directed h.document t)))
  bindings : ∃ b : Binding.Registry, b.scope = g.config.bindingNamespace ∧
    b.entries = g.bindingEntries hs ∧
    D.read (g.output / (g.config.bindingHeader : Path)) = .ok (encode (b.header g.config.marker)) ∧
    D.read (g.output / (g.config.bindingSource : Path)) =
      .ok (encode (b.source g.config.marker (g.output / (g.config.bindingHeader : Path))))

theorem Ledger.Settles.clean {b : g.Ledger source d documents} (h : b.Settles r) (hr : r.failures = []) :
    b.fates.filterMap Fate.failure? = [] ∧ delivered b.ends = b.pass.index.targets ++
      [g.output / (g.config.bindingHeader : Path), g.output / (g.config.bindingSource : Path)] ∧
    r.manifest = some g.manifestPath := by
  have hnone := h.failures.symm.trans hr
  rw [Ledger.unwritten, List.append_eq_nil_iff, List.append_eq_nil_iff] at hnone
  obtain ⟨hfates, hends, hmanifest⟩ := hnone
  refine ⟨hfates, ?_, ?_⟩
  · rw [← h.outputs, delivered, List.filter_eq_self.2]
    intro e he
    rw [List.filterMap_eq_nil_iff.1 hends e he]
    rfl
  · rw [h.manifest, Option.toList_eq_nil_iff.1 hmanifest]
    rfl

theorem Ledger.scope (b : g.Ledger source d documents) :
    b.pass.bindings.scope = g.config.bindingNamespace := by
  obtain ⟨_, -, hbooks⟩ := documents_fared (.start _ _) b.passed
  exact hbooks.scope

theorem Ledger.Settles.outputs_iff {b : g.Ledger source d documents} (h : b.Settles r)
    (hr : r.failures = []) (q : Path) : (∃ p ∈ r.generated, p ≈ q) ↔ g.Outputs b.headings q := by
  have hdistinct := Listing.Index.distinct_spec (b.headings.map Heading.output)
  have hheaders : (∃ p ∈ b.headers, p ≈ q) ↔ ∃ h ∈ b.headings, h.output ≈ q := by
    constructor
    · rintro ⟨p, hp, he⟩
      obtain ⟨h, hh, rfl⟩ := List.mem_map.1 (hdistinct.subset p hp)
      exact ⟨h, hh, he⟩
    · rintro ⟨h, hh, he⟩
      obtain ⟨p, hp, he'⟩ := hdistinct.covers _ (List.mem_map_of_mem hh)
      exact ⟨p, hp, Setoid.trans he' he⟩
  rw [h.generated, (h.clean hr).2.1, Outputs, ← hheaders, ← h.directed]
  simp only [List.mem_append, List.mem_cons, List.not_mem_nil, or_false, or_and_right, exists_or,
    exists_eq_left]

theorem clean_leaves (hp : g.Plain source d) (ht : d.IsTree) (hserves : g.Serves source d content)
    (hd : source.paths d = .ok documents) (hr : (g.run source d).outcome = .finished r)
    (hclean : r.failures = []) :
    g.Leaves (documents.filterMap (g.served content)) r (g.run source d).disk := by
  have hshelved := run_shelved hp ht hd hr
  obtain ⟨s, hv, hs, rfl, hdisk⟩ := finished_documents hd hr
  obtain ⟨b, hb⟩ := documents_settle hv hd hs
  cases hs.symm.trans b.passed
  obtain ⟨hfates, hends, hmanifest⟩ := hb.clean hclean
  have hstart : g.Reaches source d ⟨.documents documents, g.begin d⟩ := ⟨hv, documents, hd, .refl⟩
  have hend := hstart.of_leads (Leads.documents.1 _ hs)
  obtain ⟨hheadings, hbound⟩ := b.fared.served hstart hserves hfates
  have haccounts := hend.accounts hd (.inr rfl)
  rw [← b.fared.headings, hheadings] at hshelved haccounts
  have hlast : (g.last b.pass).pass.failures = [] := by
    rw [finish_eq] at hclean
    exact hclean
  have hread : ∀ f ∈ g.sharedFiles b.pass, (g.run source d).disk.read f.1 = .ok (encode f.2) := by
    intro f hf
    obtain ⟨c, hl, hfin, hturn⟩ := Leads.shared_turn source hf
    obtain ⟨l, hl, hn⟩ := (hend.of_leads hl).clean_node hp ht hturn hfin hend.last (.inl rfl) hlast
    rw [hdisk, Disk.read, Disk.find_ok.2 ⟨l, hl, hn⟩]
  refine ⟨fun q => ?_, hmanifest, fun h hh => ?_, fun h hh t htarget => ?_, b.pass.bindings, b.scope,
    ?_, ?_, ?_⟩
  · rw [← hheadings]
    exact hb.outputs_iff hclean q
  · obtain ⟨l, k, hl, hk, hn⟩ := hshelved h hh
    exact ⟨k, hk, by rw [Disk.read, Disk.find_ok.2 ⟨l, hl, hn⟩]⟩
  · obtain ⟨p, hm, he⟩ := (haccounts.directed.2 _).2 ⟨h, hh, t, htarget, Setoid.refl _⟩
    have hfile : (p, b.pass.index.text g.config.marker p) ∈ g.sharedFiles b.pass :=
      List.mem_append_left _ (List.mem_map.2 ⟨p, hm, rfl⟩)
    refine ⟨p, ?_, he, ?_⟩
    · rw [hb.generated, hends]
      exact List.mem_append_right _ (List.mem_append_left _ hm)
    · rw [hread _ hfile, haccounts.text, listing_congr _ he]
  · rw [hb.registered, hbound]
    rfl
  · exact hread (_, b.pass.bindings.header g.config.marker) (List.mem_append_right _ List.mem_cons_self)
  · exact hread (_, b.pass.bindings.source g.config.marker _)
      (List.mem_append_right _ (List.mem_cons_of_mem _ List.mem_cons_self))

/-- What two runs leave is the same but for order. -/
structure SameBut (g : Generator) (hs : List Heading) (r r' : Report) (D D' : Disk) : Prop where
  generated : ∀ q, (∃ p ∈ r.generated, p ≈ q) ↔ ∃ p ∈ r'.generated, p ≈ q
  manifest : r.manifest = r'.manifest
  headers : ∀ h ∈ hs, D.read h.output = .ok (encode (g.headerText h)) ∧
    D'.read h.output = .ok (encode (g.headerText h))
  listings : ∀ h ∈ hs, ∀ t ∈ h.schema.targets, ∃ p ∈ r.generated, ∃ p' ∈ r'.generated,
    p ≈ g.directed h.document t ∧ p' ≈ g.directed h.document t ∧
    ∃ is is' ls ls', Listing.Alike is is' ls ls' ∧
      D.read p = .ok (encode (Listing.fileText is ls g.config.marker)) ∧
      D'.read p' = .ok (encode (Listing.fileText is' ls' g.config.marker))
  bindings : ∃ b b' : Binding.Registry, b.scope = b'.scope ∧ b.entries.Perm b'.entries ∧
    D.read (g.output / (g.config.bindingHeader : Path)) = .ok (encode (b.header g.config.marker)) ∧
    D'.read (g.output / (g.config.bindingHeader : Path)) = .ok (encode (b'.header g.config.marker)) ∧
    D.read (g.output / (g.config.bindingSource : Path)) =
      .ok (encode (b.source g.config.marker (g.output / (g.config.bindingHeader : Path)))) ∧
    D'.read (g.output / (g.config.bindingSource : Path)) =
      .ok (encode (b'.source g.config.marker (g.output / (g.config.bindingHeader : Path))))

def Elsewhere (h k : Heading) : Prop := ¬ h.output ≈ k.output

instance : Std.Symm Elsewhere := ⟨fun _ _ hn he => hn (Setoid.symm he)⟩

theorem Outputs.perm (h : hs.Perm hs') (q : Path) : g.Outputs hs q ↔ g.Outputs hs' q := by
  simp only [Outputs, h.mem_iff]

theorem latest_of_pairwise (h : hs.Pairwise Elsewhere) {k k' : Heading} (hk : k ∈ hs)
    (hl : latest hs k.output = some k') : k' = k := by
  obtain ⟨hk', he⟩ := latest_equiv hl
  by_contra hne
  exact h.forall hk' hk hne he

theorem Leaves.sameBut {r' : Report} {D D' : Disk} (h : g.Leaves hs r D) (h' : g.Leaves hs' r' D')
    (hperm : hs.Perm hs') (hapart : hs.Pairwise Elsewhere) : g.SameBut hs r r' D D' := by
  have hapart' : hs'.Pairwise Elsewhere := hperm.pairwise hapart fun hn => symm hn
  refine ⟨fun q => ?_, h.manifest.trans h'.manifest.symm, fun k hk => ?_, fun k hk t ht => ?_, ?_⟩
  · rw [h.generated, h'.generated, Outputs.perm hperm]
  · obtain ⟨k₁, hk₁, hread⟩ := h.headers k hk
    obtain ⟨k₂, hk₂, hread'⟩ := h'.headers k (hperm.subset hk)
    rw [latest_of_pairwise hapart hk hk₁] at hread
    rw [latest_of_pairwise hapart' (hperm.subset hk) hk₂] at hread'
    exact ⟨hread, hread'⟩
  · obtain ⟨p, hm, he, hread⟩ := h.listings k hk t ht
    obtain ⟨p', hm', he', hread'⟩ := h'.listings k (hperm.subset hk) t ht
    exact ⟨p, hm, p', hm', he, he', _, _, _, _, Listing.alike_of_perm
      (((hperm.flatMap_right _).filter _).map _) (((hperm.flatMap_right _).filter _).map _), hread, hread'⟩
  · obtain ⟨b, hscope, hentries, hheader, hsource⟩ := h.bindings
    obtain ⟨b', hscope', hentries', hheader', hsource'⟩ := h'.bindings
    refine ⟨b, b', hscope.trans hscope'.symm, ?_, hheader, hheader', hsource, hsource'⟩
    rw [hentries, hentries']
    exact (hperm.filter _).map _

theorem clean_headed (hserves : g.Serves source d content) (hd : source.paths d = .ok documents)
    (hr : (g.run source d).outcome = .finished r) (hclean : r.failures = []) :
    g.headed source (g.begin d) documents = documents.filterMap (g.served content) := by
  obtain ⟨s, hv, hs, rfl, -⟩ := finished_documents hd hr
  obtain ⟨b, hb⟩ := documents_settle hv hd hs
  rw [← b.fared.headings]
  exact (b.fared.served ⟨hv, documents, hd, .refl⟩ hserves (hb.clean hclean).1).1

theorem served_pairwise (h : documents.Pairwise fun p q =>
      ∀ o ∈ g.entityPath? p, ∀ o' ∈ g.entityPath? q, ¬ o ≈ o') :
    (documents.filterMap (g.served content)).Pairwise Elsewhere := by
  have hpath : ∀ {p : Path} {k : Heading}, g.served content p = some k → g.entityPath? p = some k.output := by
    intro p k hk
    simp only [served] at hk
    split at hk
    · cases hk
    · split at hk
      next ho =>
        cases hk
        exact ho
      · cases hk
  exact h.filterMap _ fun p q hpq k hk k' hk' => hpq _ (hpath hk) _ (hpath hk')

/-- Two runs that are served the same documents, in two orders, and that both end without a failure: what
they leave is the same but for order. -/
theorem order_free {documents' : List Path} {r' : Report} (hp : g.Plain source d) (hp' : g.Plain source' d)
    (ht : d.IsTree) (hd : source.paths d = .ok documents) (hd' : source'.paths d = .ok documents')
    (hperm : documents.Perm documents') (hserves : g.Serves source d content)
    (hserves' : g.Serves source' d content)
    (hapart : documents.Pairwise fun p q => ∀ o ∈ g.entityPath? p, ∀ o' ∈ g.entityPath? q, ¬ o ≈ o')
    (hr : (g.run source d).outcome = .finished r) (hr' : (g.run source' d).outcome = .finished r')
    (hclean : r.failures = []) (hclean' : r'.failures = []) :
    (g.headed source (g.begin d) documents).Perm (g.headed source' (g.begin d) documents') ∧
    g.SameBut (g.headed source (g.begin d) documents) r r' (g.run source d).disk (g.run source' d).disk := by
  rw [clean_headed hserves hd hr hclean, clean_headed hserves' hd' hr' hclean']
  have hheadings := hperm.filterMap (g.served content)
  exact ⟨hheadings, (clean_leaves hp ht hserves hd hr hclean).sameBut
    (clean_leaves hp' ht hserves' hd' hr' hclean') hheadings (served_pairwise hapart)⟩

def back : Source := .inMemory [secondMember, firstMember]

theorem back_outcome : (defaults.run back bare).outcome = .finished {
    generated := ["out/b.hpp", "out/a.hpp", "out/all.hpp", "out/chai_bindings.hpp", "out/chai_bindings.cpp"]
    manifest := some "out/CMakeLists.txt"
    entities := 2
    failures := [] } := by decide +kernel

theorem back_serves : defaults.Serves back bare (forth.read bare) := by
  intro p rest s hr
  obtain ⟨c, hc, rfl⟩ := hr.held
  -- The disk plays no part.
  change back.read bare c.1 = forth.read bare c.1
  rcases List.mem_pair.1 hc with rfl | rfl
  · decide +kernel
  · decide +kernel

theorem members_order_free :
    (defaults.Plain forth bare ∧ defaults.Plain back bare ∧ bare.IsTree ∧
      defaults.Serves forth bare (forth.read bare) ∧ defaults.Serves back bare (forth.read bare)) ∧
    ∃ r r', (defaults.run forth bare).outcome = .finished r ∧ r.failures = [] ∧
      (defaults.run back bare).outcome = .finished r' ∧ r'.failures = [] ∧ r.generated ≠ r'.generated ∧
      defaults.SameBut (defaults.headed forth (defaults.begin bare) ["a.json", "b.json"]) r r'
        (defaults.run forth bare).disk (defaults.run back bare).disk := by
  have hback : defaults.Plain back bare :=
    defaults_plain_of (by decide) fun c hc => member_levels c (by simpa [or_comm] using hc)
  have ht : bare.IsTree := by decide
  have hserves : defaults.Serves forth bare (forth.read bare) := fun _ _ _ _ => rfl
  have hperm : List.Perm (α := Path) ["a.json", "b.json"] ["b.json", "a.json"] := .swap _ _ _
  have hapart : List.Pairwise (fun p q => ∀ o ∈ defaults.entityPath? p, ∀ o' ∈ defaults.entityPath? q,
      ¬ o ≈ o') (["a.json", "b.json"] : List Path) := by decide +kernel
  have hsame := order_free forth_plain hback ht rfl rfl hperm hserves back_serves hapart forth_outcome back_outcome
    rfl rfl
  exact ⟨⟨forth_plain, hback, ht, hserves, back_serves⟩, _, _, forth_outcome, rfl, back_outcome, rfl, by decide,
    hsame.2⟩

def listersBack : Source Linked := .inMemory [secondLister, firstLister]

def listersBackReport : Report where
  generated := ["/proc/thread-self/cwd/B.hpp", "/proc/self/cwd/A.hpp", "/proc/thread-self/cwd/all.hpp",
    "/proc/self/cwd/all.hpp", "/proc/self/cwd/chai_bindings.hpp", "/proc/self/cwd/chai_bindings.cpp"]
  manifest := some "/proc/self/cwd/CMakeLists.txt"
  entities := 2
  failures := []

theorem listersBack_run : (throughLinks.run listersBack twoWays).outcome = .finished listersBackReport ∧
    FileSystem.readHead (throughLinks.run listersBack twoWays).disk "/proc/self/cwd/all.hpp" 1000 =
      .ok (encode (Listing.fileText [] [("LA", ["A"])] throughLinks.config.marker)) := by
  decide +kernel

/-- With two links to one file, the file holds the list of whichever document is taken last. -/
theorem linked_order_matters :
    (throughLinks.run listers twoWays).outcome = .finished listersReport ∧
    (throughLinks.run listersBack twoWays).outcome = .finished listersBackReport ∧
    FileSystem.readHead (throughLinks.run listers twoWays).disk "/proc/self/cwd/all.hpp" 1000 =
      .ok (encode (Listing.fileText [] [("LB", ["B"])] throughLinks.config.marker)) ∧
    FileSystem.readHead (throughLinks.run listersBack twoWays).disk "/proc/self/cwd/all.hpp" 1000 =
      .ok (encode (Listing.fileText [] [("LA", ["A"])] throughLinks.config.marker)) :=
  ⟨listers_run.1, listersBack_run.1, listers_run.2, listersBack_run.2⟩

end Generator

end EntityGen
