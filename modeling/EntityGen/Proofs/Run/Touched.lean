import EntityGen.Proofs.EmissionHistory
import EntityGen.Proofs.Run.Handwritten
import EntityGen.Proofs.Run.Outputs

namespace EntityGen

open Disk (segments steps)
open Text.Utf8 (Bytes encode)

namespace Disk

variable {d D D' : Disk} {p q : Path} {l k : Location} {ps qs : List Path}

theorem place_of_equiv (h : p ≈ q) (hp : d.locate p = .ok l) (hq : d.locate q = .ok k) : l = k := by
  obtain ⟨hlead, hsteps⟩ := Path.equiv_iff_steps.1 h
  have hfollow : ∀ {r : Path} {m : Location}, d.locate r = .ok m →
      d.follow (d.start r) (steps (segments r)) = .ok m := by
    intro r m hr
    have hr := follow_steps (locate_ok hr).2
    have hslash : steps (if endsInSlash r then ["."] else []) = [] := by
      cases endsInSlash r <;> rfl
    rwa [steps_append, hslash, List.append_nil] at hr
  have hpq := hfollow hp
  rw [hsteps, start_congr hlead, hfollow hq] at hpq
  exact (Except.ok.inj hpq).symm

/-- On the way from `d` to `D` these paths were written: each leads to a file, or else to a device
that it did not lead to at first. Besides those files only directories are new. -/
structure Touches (d : Disk) (ps : List Path) (D : Disk) : Prop where
  grows : d.Grows D
  node : ∀ l, D.node? l = d.node? l ∨ d.node? l = none ∧ D.node? l = some .directory ∨
    ∃ p ∈ ps, D.locate p = .ok l ∧ ∃ b, D.node? l = some (.file b)
  leads : ∀ p ∈ ps, ∃ l, D.locate p = .ok l ∧ ((∃ b, D.node? l = some (.file b)) ∨
    d.find p = .error .notFound ∧ d.node? l = some .sink)

theorem Touches.start (d : Disk) : d.Touches [] d := ⟨.refl d, fun _ => .inl rfl, by simp⟩

theorem Touches.sink (h : d.Touches ps D) (hs : D.node? l = some .sink) :
    d.node? l = some .sink := by
  rcases h.node l with hold | ⟨-, hdir⟩ | ⟨-, -, -, b, hb⟩
  · rw [← hold, hs]
  · rw [hs] at hdir
    cases hdir
  · rw [hs] at hb
    cases hb

theorem Touches.leads_on (h : d.Touches ps D) (hg : D.Grows D') (hp : p ∈ ps) :
    ∃ l, D'.locate p = .ok l ∧ ((∃ b, D'.node? l = some (.file b)) ∨
      d.find p = .error .notFound ∧ d.node? l = some .sink) := by
  obtain ⟨l, hl, hn⟩ := h.leads p hp
  exact ⟨l, hg.locate_ok hl, hn.imp (fun ⟨_, hb⟩ => hg.file hb) id⟩

theorem Touches.node_on (h : d.Touches ps D) (hg : D.Grows D') (hsub : ∀ p ∈ ps, p ∈ qs)
    (hl : D'.node? l = D.node? l ∨ D.node? l = none ∧ D'.node? l = some .directory) :
    D'.node? l = d.node? l ∨ d.node? l = none ∧ D'.node? l = some .directory ∨
      ∃ p ∈ qs, D'.locate p = .ok l ∧ ∃ b, D'.node? l = some (.file b) := by
  rcases h.node l with hold | ⟨hnone, hdir⟩ | ⟨p, hp, hlead, b, hb⟩
  · rcases hl with hl | ⟨hnone, hdir⟩
    · exact .inl (hl.trans hold)
    · exact .inr (.inl ⟨hold ▸ hnone, hdir⟩)
  · exact .inr (.inl ⟨hnone, hg.directory hdir⟩)
  · exact .inr (.inr ⟨p, hsub p hp, hg.locate_ok hlead, hg.file hb⟩)

theorem Touches.congr (h : d.Touches ps D) (hsub : ∀ q ∈ qs, q ∈ ps)
    (hcovers : ∀ p ∈ ps, ∃ q ∈ qs, q ≈ p) : d.Touches qs D where
  grows := h.grows
  node l := by
    refine (h.node l).imp id (.imp id fun ⟨p, hp, hl, hb⟩ => ?_)
    obtain ⟨q, hq, he⟩ := hcovers p hp
    obtain ⟨k, hk, -⟩ := h.leads q (hsub q hq)
    exact ⟨q, hq, place_of_equiv he hk hl ▸ hk, hb⟩
  leads q hq := h.leads q (hsub q hq)

theorem Touches.emit {e : Emitter} (h : d.Touches ps e.disk) {text marker : String}
    (hm : marker ≠ "") : d.Touches (ps ++ (e.emit p text marker).events.filterMap Pass.log?)
      (e.emit p text marker).emitter.disk := by
  have hg := Emitter.emit_grows e p text marker
  cases hr : (e.emit p text marker).result with
  | error f =>
      obtain ⟨hf, -, hev⟩ := Emitter.emit_failed hr
      rw [hev, List.filterMap_nil, List.append_nil]
      exact ⟨h.grows.trans hg, fun l => h.node_on hg (fun _ hp => hp) (hf.node l),
        fun q hq => h.leads_on hg hq⟩
  | ok u =>
      have hmem : p ∈ ps ++ (e.emit p text marker).events.filterMap Pass.log? :=
        List.mem_append_right _ (Generator.mem_wrote_emission.2 ⟨rfl, hr⟩)
      have hsub : ∀ q ∈ ps, q ∈ ps ++ (e.emit p text marker).events.filterMap Pass.log? :=
        fun _ => List.mem_append_left _
      obtain ⟨l, hl, hn, hother⟩ := Emitter.emit_node hr
      refine ⟨h.grows.trans hg, fun m => ?_, fun q hq => ?_⟩
      · by_cases hml : m = l
        · subst hml
          rcases hn with ⟨hsink, hsink'⟩ | hfile
          · exact h.node_on hg hsub (.inl (hsink.trans hsink'.symm))
          · exact .inr (.inr ⟨p, hmem, hl, _, hfile⟩)
        · exact h.node_on hg hsub (hother m hml)
      · rcases List.mem_append.1 hq with hq | hq
        · exact h.leads_on hg hq
        · obtain ⟨rfl, -⟩ := Generator.mem_wrote_emission.1 hq
          rcases hn with ⟨-, hsink⟩ | hfile
          · have hmiss := h.grows.find_notFound (Emitter.emit_sink hm hr hl hsink)
            exact ⟨l, hl, .inr ⟨hmiss, h.sink hsink⟩⟩
          · exact ⟨l, hl, .inl ⟨_, hfile⟩⟩

end Disk

/-- The files that a report names. -/
def Report.named (r : Report) : List Path := r.generated ++ r.manifest.toList

namespace Generator

variable {g : Generator} {source : Source} {d : Disk} {s : Pass} {c : Stage} {r : Report} {p : Path}
  {l : Location}

theorem Reaches.touches (h : g.Reaches source d c) : d.Touches c.pass.wrote c.pass.emitter.disk :=
  h.of_emissions (P := fun e written => d.Touches written e.disk)
    (fun _ _ _ _ _ he ha => he.emit (ha.marker_ne h.valid)) (.start d)

theorem Reaches.written (h : g.Reaches source d c) :
    c.pass.emitter.written = Listing.Index.distinct c.pass.wrote := by
  refine h.of_emissions (P := fun e written => e.written = Listing.Index.distinct written) ?_ rfl
  intro e written p text marker he _
  have hlog : (e.emit p text marker).events.filterMap Pass.log? =
      if (e.emit p text marker).result = .ok () then [p] else [] := by
    cases hr : (e.emit p text marker).result with
    | error f =>
        rw [(Emitter.emit_failed hr).2.2]
        rfl
    | ok u =>
        obtain ⟨-, D, D', -, -, hem⟩ := Emitter.emit_done hr
        rw [hem]
        rfl
  rw [Listing.Index.distinct_eq] at he ⊢
  rw [Emitter.emit_written he, hlog]

theorem writeOnce_written (s : Pass) (p : Path) (text marker : String) :
    (s.writeOnce p text marker).1.emitter.written =
      s.emitter.written ++ if (s.writeOnce p text marker).2 then [p] else [] := by
  rcases writeOnce_cases s p text marker with ⟨-, he⟩ | ⟨hn, ⟨f, hr, he⟩ | ⟨hr, he⟩⟩
  · rw [he]
    exact (List.append_nil _).symm
  · rw [he]
    exact (Emitter.emit_failed hr).2.1.trans (List.append_nil _).symm
  · obtain ⟨-, D, D', -, -, hem⟩ := Emitter.emit_done hr
    rw [he]
    simp only [Pass.emit, hem, Emitter.record, hn, Bool.false_eq_true, if_false, if_true]

theorem finish_named (g : Generator) (s : Pass) :
    (g.last s).pass.emitter.written = (g.finish s).2.named := by
  have hwritten : (g.last s).pass.emitter.written = (g.shared s).emitter.written ++
      if (g.writeManifest (g.shared s)).2 then [g.manifestPath] else [] := writeOnce_written ..
  rw [hwritten, finish_eq, Report.named]
  cases (g.writeManifest (g.shared s)).2 <;> rfl

theorem finish_manifest {m : Path} (hm : (g.finish s).2.manifest = some m) : m = g.manifestPath ∧
    ((g.shared s).emitter.emit m (g.manifestText (g.shared s)) g.config.manifestMarker).result =
      .ok () ∧
    (g.last s).pass.emitter =
      ((g.shared s).emitter.emit m (g.manifestText (g.shared s)) g.config.manifestMarker).emitter := by
  rw [finish_eq] at hm
  have hcases := writeOnce_cases (g.shared s) g.manifestPath (g.manifestText (g.shared s))
    g.config.manifestMarker
  rw [← writeManifest] at hcases
  rcases hcases with ⟨-, he⟩ | ⟨hn, ⟨f, hr, he⟩ | ⟨hr, he⟩⟩
  · simp [he] at hm
  · simp [he] at hm
  · have hpath : g.manifestPath = m := by simpa [he] using hm
    rw [← hpath, last, he]
    exact ⟨rfl, hr, rfl⟩

/-- The run writes a device, by a path that led nowhere at first. -/
def Loses (g : Generator) (source : Source) (d : Disk) (p : Path) : Prop :=
  ∃ l, d.node? l = some .sink ∧ g.Strays source d p l

theorem Loses.climbs (h : g.Loses source d p) (ht : d.IsTree) : ".." ∈ segments p := by
  obtain ⟨l, hn, ⟨⟨c, hc, -⟩, hmiss, hl⟩⟩ := h
  rcases g.run_disk source d with ⟨hno, -⟩ | ⟨c', hc', -, hr⟩
  · exact absurd hc (hno c)
  · rw [hr] at hl
    exact ht.climbs hc'.grows hn hmiss hl

/-- A path that was written leads to a file in the end, or it strayed onto a device. -/
theorem Reaches.file_or_loses (h : g.Reaches source d c)
    (hr : (g.run source d).disk = c.pass.emitter.disk) (hp : p ∈ c.pass.wrote) :
    (∃ b, (g.run source d).disk.find p = .ok (.file b)) ↔ ¬ g.Loses source d p := by
  obtain ⟨l, hl, hn⟩ := h.touches.leads p hp
  rw [hr]
  constructor
  · rintro ⟨b, hb⟩ ⟨k, hk, hstray⟩
    have hlk := hstray.leads
    rw [hr] at hlk
    obtain ⟨m, hm, hb⟩ := Disk.find_ok.1 hb
    cases hm.symm.trans hlk
    rw [h.grows.sink hk] at hb
    cases hb
  · intro hno
    rcases hn with ⟨b, hb⟩ | ⟨hmiss, hsink⟩
    · exact ⟨b, Disk.find_ok.2 ⟨l, hl, hb⟩⟩
    · exact absurd ⟨l, hsink, ⟨c, h, hp⟩, hmiss, hr ▸ hl⟩ hno

/-- A report names every file that the run made or changed, and each by one path; only directories
are new besides. What it names is a file, except for a path that strayed onto a device, which then
leads back up; and the manifest, if it is named and is a file, lists what was generated. -/
theorem report_names (g : Generator) (source : Source) (d : Disk)
    (hr : (g.run source d).outcome = .finished r) :
    d.Touches r.named (g.run source d).disk ∧ r.named.Pairwise (fun p q => ¬ p ≈ q) ∧
    (∀ p ∈ r.named, (∃ b, (g.run source d).disk.find p = .ok (.file b)) ↔ ¬ g.Loses source d p) ∧
    (∀ p, g.Loses source d p → d.IsTree → ".." ∈ segments p) ∧
    ∀ m, r.manifest = some m → ¬ g.Loses source d m → (g.run source d).disk.read m = .ok (encode
      (Manifest.text g.config.manifestVariable r.generated g.config.manifestMarker)) := by
  obtain ⟨s, hs, rfl, hdisk⟩ := run_finished hr
  have h := hs.last
  have hnamed : (g.finish s).2.named = Listing.Index.distinct (g.last s).pass.wrote := by
    rw [← finish_named, h.written]
  have hdistinct := Listing.Index.distinct_spec (g.last s).pass.wrote
  rw [← hnamed] at hdistinct
  have hfile : ∀ p ∈ (g.finish s).2.named,
      (∃ b, (g.run source d).disk.find p = .ok (.file b)) ↔ ¬ g.Loses source d p :=
    fun p hp => h.file_or_loses hdisk (hdistinct.subset p hp)
  refine ⟨?_, hdistinct.apart, hfile, fun p hp => hp.climbs, fun m hm hno => ?_⟩
  · rw [hdisk]
    exact h.touches.congr hdistinct.subset hdistinct.covers
  · have hmem : m ∈ (g.finish s).2.named := by
      rw [Report.named, hm]
      exact List.mem_append_right _ List.mem_cons_self
    obtain ⟨b, hb⟩ := (hfile m hmem).2 hno
    obtain ⟨-, hok, hem⟩ := finish_manifest hm
    obtain ⟨l, hl, hn, -⟩ := Emitter.emit_node hok
    rw [← hem] at hl hn
    rw [hdisk] at hb ⊢
    obtain ⟨k, hk, hb⟩ := Disk.find_ok.1 hb
    cases hk.symm.trans hl
    rcases hn with ⟨hsink, -⟩ | hn
    · rw [hsink] at hb
      cases hb
    · rw [Disk.read, Disk.find_ok.2 ⟨l, hl, hn⟩, finish_eq]
      rfl

def besideDevice : Disk where
  workingDirectory := []
  nodes := [(["dev"], .directory), (["dev", "null"], .sink)]
  nodup := by decide

def intoDevice : Generator where
  config := { bindingHeader := "new/../../dev/null" }
  output := "out"

def devicePath : Path := "out/new/../../dev/null"

theorem intoDevice_outcome : (intoDevice.run noDocuments besideDevice).outcome = .finished {
    generated := [devicePath, "out/chai_bindings.cpp"]
    manifest := some "out/CMakeLists.txt"
    entities := 0
    failures := [] } := by decide +kernel

theorem intoDevice_find :
    (intoDevice.run noDocuments besideDevice).disk.find devicePath = .ok .sink := by decide +kernel

theorem device_named : intoDevice.config.validate = .ok () ∧ besideDevice.IsTree ∧
    ∃ r, (intoDevice.run noDocuments besideDevice).outcome = .finished r ∧
      devicePath ∈ r.generated ∧
      (intoDevice.run noDocuments besideDevice).disk.find devicePath = .ok .sink :=
  ⟨by decide +kernel, by decide, _, intoDevice_outcome, List.mem_cons_self, intoDevice_find⟩

theorem device_lost : (intoDevice.run noDocuments besideDevice).outcome = .finished {
      generated := [devicePath, "out/chai_bindings.cpp"]
      manifest := some "out/CMakeLists.txt"
      entities := 0
      failures := [] } ∧
    intoDevice.Loses noDocuments besideDevice devicePath ∧
    (∃ b, (intoDevice.run noDocuments besideDevice).disk.find "out/chai_bindings.cpp" =
      .ok (.file b)) ∧
    (intoDevice.run noDocuments besideDevice).disk.read "out/CMakeLists.txt" =
      .ok (encode (Manifest.text intoDevice.config.manifestVariable
        [devicePath, "out/chai_bindings.cpp"] intoDevice.config.manifestMarker)) := by
  obtain ⟨-, -, hfile, hclimbs, hmanifest⟩ :=
    report_names intoDevice noDocuments besideDevice intoDevice_outcome
  have ht : besideDevice.IsTree := by decide
  refine ⟨intoDevice_outcome, Classical.byContradiction fun hno => ?_, ?_, ?_⟩
  · obtain ⟨b, hb⟩ := (hfile devicePath List.mem_cons_self).2 hno
    rw [intoDevice_find] at hb
    cases hb
  · exact (hfile "out/chai_bindings.cpp" (by decide)).2 fun h => absurd (hclimbs _ h ht) (by decide)
  · exact hmanifest _ rfl fun h => absurd (hclimbs _ h ht) (by decide)

end Generator

end EntityGen
