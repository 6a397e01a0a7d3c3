import EntityGen.Proofs.Disk.Plain
import EntityGen.Proofs.Run.Course

namespace EntityGen.Generator

open Text.Utf8 (Bytes encode)

variable {g : Generator} {source : Source} {d : Disk} {c : Stage} {l : Location} {b : Bytes}
  {p : Path}

def Writes (g : Generator) (source : Source) (d : Disk) (p : Path) : Prop :=
  ∃ c, g.Reaches source d c ∧ p ∈ c.pass.wrote

/-- The run writes `p`, which leads nowhere before the run and to `l` after it. -/
structure Strays (g : Generator) (source : Source) (d : Disk) (p : Path) (l : Location) : Prop where
  writes : g.Writes source d p
  missing : d.find p = .error .notFound
  leads : (g.run source d).disk.locate p = .ok l

/-- As long as the file is what it was, only the guard's blind spot can change it. -/
theorem Reaches.kept_or_strayed (h : g.Reaches source d c) (hb : d.node? l = some (.file b))
    (hm : ¬ Opens g.config.marker b)
    (hmm : d.locate g.manifestPath = .ok l → ¬ Opens g.config.manifestMarker b) :
    c.pass.emitter.disk.node? l = some (.file b) ∨
      ∃ p ∈ c.pass.wrote, d.find p = .error .notFound ∧ c.pass.emitter.disk.locate p = .ok l := by
  refine (h.of_emissions (P := fun e written => d.Grows e.disk ∧
    (e.disk.node? l = some (.file b) ∨
      ∃ p ∈ written, d.find p = .error .notFound ∧ e.disk.locate p = .ok l))
    ?_ ⟨.refl d, .inl hb⟩).2
  rintro e written p text marker ⟨hg, he⟩ ha
  have hg' := Emitter.emit_grows e p text marker
  refine ⟨hg.trans hg', ?_⟩
  rcases he with hk | ⟨q, hq, hmiss, hl⟩
  · rcases Emitter.emit_file text (ha.marker_ne h.valid) hk with hkeep | ⟨hr, -, hl, hwhy⟩
    · exact .inl hkeep
    · refine .inr ⟨p, List.mem_append_right _ (mem_wrote_emission.2 ⟨rfl, hr⟩), ?_, hl⟩
      -- The guard let `p` pass because it found nothing there: the file does not open with a marker.
      rcases hwhy with hmiss | ⟨hthere, hopen⟩
      · exact hg.find_notFound hmiss
      · rcases ha.marked with rfl | ⟨rfl, rfl⟩
        · exact absurd hopen hm
        · rcases hg.missing_or_leads hthere with hmiss | hlead
          · exact hmiss
          · exact absurd hopen (hmm hlead)
  · exact .inr ⟨q, List.mem_append_left _ hq, hmiss, hg'.locate_ok hl⟩

/-- A file that a run wrote begins with the marker, or it is the manifest's with its own. -/
def Stamped (g : Generator) (d : Disk) (l : Location) : Prop :=
  ∃ c, d.node? l = some (.file c) ∧
    (Opens g.config.marker c ∨ Opens g.config.manifestMarker c ∧ d.locate g.manifestPath = .ok l)

theorem Asks.stamped {e : Emitter} {text marker : String} (ha : g.Asks p text marker)
    (hv : g.config.validate = .ok ()) (hs : g.Stamped e.disk l) :
    g.Stamped (e.emit p text marker).emitter.disk l := by
  obtain ⟨c, hc, ho⟩ := hs
  rcases Emitter.emit_file text (ha.marker_ne hv) hc with hkeep | ⟨-, hn, hl, -⟩
  · refine ⟨c, hkeep, ho.imp id fun ⟨h, hm⟩ => ⟨h, (Emitter.emit_grows e p text marker).locate_ok hm⟩⟩
  · refine ⟨_, hn, ?_⟩
    rcases ha with ⟨hopen, rfl | ⟨rfl, rfl⟩⟩
    · exact .inl hopen
    · exact .inr ⟨hopen, hl⟩

theorem Reaches.stamped (h : g.Reaches source d c) (hb : d.node? l = some (.file b))
    (hp : p ∈ c.pass.wrote) :
    ∃ k, c.pass.emitter.disk.locate p = .ok k ∧ (k = l → g.Stamped c.pass.emitter.disk l) := by
  refine (h.of_emissions (P := fun e written => d.Grows e.disk ∧
    ∀ p ∈ written, ∃ k, e.disk.locate p = .ok k ∧ (k = l → g.Stamped e.disk l))
    ?_ ⟨.refl d, by simp⟩).2 p hp
  rintro e written q text marker ⟨hg, he⟩ ha
  have hg' := Emitter.emit_grows e q text marker
  refine ⟨hg.trans hg', fun p hp => ?_⟩
  rcases List.mem_append.1 hp with hp | hp
  · obtain ⟨k, hk, hs⟩ := he p hp
    exact ⟨k, hg'.locate_ok hk, fun hkl => ha.stamped h.valid (hs hkl)⟩
  · obtain ⟨rfl, hr⟩ := mem_wrote_emission.1 hp
    obtain ⟨k, hk, hn, -⟩ := Emitter.emit_node hr
    refine ⟨k, hk, fun hkl => ?_⟩
    subst hkl
    rcases hn with ⟨-, hsink⟩ | hn
    · obtain ⟨c, hc⟩ := hg.file hb
      rw [hsink] at hc
      cases hc
    · refine ⟨_, hn, ?_⟩
      rcases ha with ⟨hopen, rfl | ⟨rfl, rfl⟩⟩
      · exact .inl hopen
      · exact .inr ⟨hopen, hk⟩

/-- A file that does not begin with the marker keeps its content if and only if no path that the run
writes strays onto it; and a path that strays leads back up. -/
theorem handwritten_kept (g : Generator) (source : Source) (d : Disk) (ht : d.IsTree)
    (hb : d.node? l = some (.file b)) (hm : ¬ Opens g.config.marker b)
    (hmm : d.locate g.manifestPath = .ok l → ¬ Opens g.config.manifestMarker b) :
    ((∀ p, ¬ g.Strays source d p l) → (g.run source d).disk.node? l = some (.file b)) ∧
    ((g.run source d).disk.node? l = some (.file b) →
      ((g.run source d).disk.locate g.manifestPath = .ok l → ¬ Opens g.config.manifestMarker b) →
      ∀ p, ¬ g.Strays source d p l) ∧
    ∀ p, g.Strays source d p l → ".." ∈ Disk.segments p := by
  refine ⟨fun hno => ?_, fun hkept hmm' p hs => ?_, fun p hs => ?_⟩
  · rcases g.run_disk source d with ⟨-, hr⟩ | ⟨c, h, -, hr⟩
    · rw [hr, hb]
    · rw [hr]
      rcases h.kept_or_strayed hb hm hmm with hk | ⟨p, hp, hmiss, hl⟩
      · exact hk
      · exact absurd ⟨⟨c, h, hp⟩, hmiss, hr ▸ hl⟩ (hno p)
  · obtain ⟨⟨c, h, hp⟩, -, hl⟩ := hs
    rcases g.run_disk source d with ⟨hn, -⟩ | ⟨c', h', he, hr⟩
    · exact hn c h
    · rw [hr] at hkept hmm' hl
      obtain ⟨k, hk, hstamp⟩ := h'.stamped hb (Leads.wrote (h.leads h' he) hp)
      obtain ⟨b', hb', ho⟩ := hstamp (Except.ok.inj (hk.symm.trans hl))
      rw [hkept] at hb'
      cases hb'
      rcases ho with ho | ⟨ho, hlm⟩
      · exact hm ho
      · exact hmm' hlm ho
  · obtain ⟨⟨c, h, hp⟩, hmiss, hl⟩ := hs
    refine Decidable.byContradiction fun hup => ?_
    rcases g.run_disk source d with ⟨hn, -⟩ | ⟨c', h', -, hr⟩
    · exact hn c h
    · rw [hr] at hl
      have hthere := ht.locate h'.grows hb hup hl
      rw [Disk.find_ok.2 ⟨l, hthere, hb⟩] at hmiss
      cases hmiss

def detour : Generator where
  config := { bindingHeader := "new/../hand.hpp" }
  output := "out"

def handText : Bytes := encode "// by hand\n"

def beside : Disk where
  workingDirectory := []
  nodes := [(["out"], .directory), (["out", "hand.hpp"], .file handText)]
  nodup := by decide

def noDocuments : Source := .inMemory []

theorem detour_changes :
    (detour.run noDocuments beside).disk.node? ["out", "hand.hpp"] ≠ some (.file handText) := by
  decide +kernel

theorem handwritten_overwritten : detour.config.validate = .ok () ∧ beside.IsTree ∧
    beside.node? ["out", "hand.hpp"] = some (.file handText) ∧
    ¬ Opens detour.config.marker handText ∧ ¬ Opens detour.config.manifestMarker handText ∧
    (detour.run noDocuments beside).disk.node? ["out", "hand.hpp"] ≠ some (.file handText) :=
  ⟨by decide +kernel, by decide, by decide, by decide, by decide +kernel, detour_changes⟩

theorem handwritten_kept_beside : beside.IsTree ∧
    beside.node? ["out", "hand.hpp"] = some (.file handText) ∧
    ¬ Opens detour.config.marker handText ∧ ¬ Opens detour.config.manifestMarker handText ∧
    ∃ p, detour.Strays noDocuments beside p ["out", "hand.hpp"] ∧ ".." ∈ Disk.segments p := by
  have ht : beside.IsTree := by decide
  have hb : beside.node? ["out", "hand.hpp"] = some (.file handText) := by decide
  have hm : ¬ Opens detour.config.marker handText := by decide
  have hmm : ¬ Opens detour.config.manifestMarker handText := by decide +kernel
  obtain ⟨hkept, -, hup⟩ := handwritten_kept detour noDocuments beside ht hb hm fun _ => hmm
  refine ⟨ht, hb, hm, hmm, Classical.byContradiction fun hno => ?_⟩
  exact detour_changes (hkept fun p hp => hno ⟨p, hp, hup p hp⟩)

end EntityGen.Generator
