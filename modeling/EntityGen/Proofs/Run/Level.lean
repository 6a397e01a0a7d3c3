import EntityGen.Proofs.Extension
import EntityGen.Proofs.Run.Outputs

namespace EntityGen

open Disk (segments steps)
open Text.Utf8 (Bytes encode)

variable {o p q : Path}

namespace Path

/-- A path that leads on from where it stands. -/
structure Level (p : Path) : Prop where
  relative : p.isAbsolute = false
  plain : ".." ∉ segments p

instance (p : Path) : Decidable p.Level :=
  decidable_of_iff (p.isAbsolute = false ∧ ".." ∉ segments p)
    ⟨fun h => ⟨h.1, h.2⟩, fun h => ⟨h.relative, h.plain⟩⟩

/-- A path that begins where `o` does. -/
structure Stays (o p : Path) : Prop where
  lead : p.lead = o.lead
  plain : ".." ∉ segments p

theorem plain_iff_steps : ".." ∉ segments p ↔ ".." ∉ steps (segments p) := by
  simp [steps]

theorem Stays.congr (h : Stays o p) (he : p ≈ q) : Stays o q := by
  obtain ⟨hl, hs⟩ := equiv_iff_steps.1 he
  refine ⟨hl ▸ h.lead, ?_⟩
  rw [plain_iff_steps, ← hs, ← plain_iff_steps]
  exact h.plain

theorem join_text_ne (hp : p.text ≠ "") (hq : q.isAbsolute = false) : (p / q : Path).text ≠ "" := by
  obtain ⟨cs, ht, -⟩ := join_toList hp hq
  intro h
  rw [h] at ht
  simp at ht

theorem Stays.join (h : Stays o p) (hp : p.text ≠ "") (hq : Level q) : Stays o (p / q) := by
  refine ⟨(lead_join hp hq.relative).trans h.lead, ?_⟩
  rw [segments_join hp hq.relative, List.mem_append, not_or]
  exact ⟨h.plain, hq.plain⟩

theorem Level.above (h : Level p) : Level p.above := by
  refine ⟨?_, fun hs => h.plain (List.dropLast_subset _ (p.segments_above_subset _ hs))⟩
  by_cases ha : p.above.text = ""
  · have hz : p.above = ⟨""⟩ := congrArg Path.mk ha
    rw [hz]
    decide
  · rw [isAbsolute, lead_above ha]
    exact h.relative

/-- Plain paths that begin alike and lead to one place are spelled alike. -/
theorem Stays.equiv_of_place (hp : Stays o p) (hq : Stays o q) {d : Disk} {l : Location}
    (h : d.locate p = .ok l) (h' : d.locate q = .ok l) : p ≈ q := by
  have hl : p.lead = q.lead := hp.lead.trans hq.lead.symm
  have hsteps := (Disk.locate_plain hp.plain h).symm.trans (Disk.locate_plain hq.plain h')
  rw [Disk.start_congr hl] at hsteps
  exact equiv_iff_steps.2 ⟨hl, List.append_cancel_left hsteps⟩

end Path

namespace Generator

open EntityGen.Path (Level Stays)

variable {g : Generator} {source : Source} {d : Disk} {c c' : Stage} {w : Path}

/-- Neither the output directory nor what is named below it leads back up. -/
structure Plain (g : Generator) (source : Source) (d : Disk) : Prop where
  output : g.output.text ≠ ""
  plain : ".." ∉ segments g.output
  documents : ∀ ps, source.paths d = .ok ps → ∀ p ∈ ps, Level p
  targets : ∀ document schema, g.Takes source d document schema → ∀ t ∈ schema.targets,
    Level (t : Path)
  bindingHeader : Level (g.config.bindingHeader : Path)
  bindingSource : Level (g.config.bindingSource : Path)
  manifest : Level (g.config.manifestFile : Path)

theorem Plain.stays (hp : g.Plain source d) : Stays g.output g.output := ⟨rfl, hp.plain⟩

theorem Plain.join (hp : g.Plain source d) (hq : Level q) : Stays g.output (g.output / q) :=
  hp.stays.join hp.output hq

theorem Reaches.remaining (h : g.Reaches source d c) : ∃ documents,
    source.paths d = .ok documents ∧ ∀ rest, c.phase = .documents rest → ∀ p ∈ rest, p ∈ documents := by
  obtain ⟨documents, hd, hc⟩ := h.course
  refine ⟨documents, hd, ?_⟩
  clear h
  induction hc with
  | refl =>
      intro rest hr
      cases hr
      exact fun _ hp => hp
  | tail _ hs ih =>
      intro rest hr
      cases hs with
      | document hp =>
          cases hr
          exact fun q hq => ih _ rfl q (List.mem_cons_of_mem _ hq)
      | listings | listing | bindings | binding | manifest => cases hr

theorem Plain.document (hp : g.Plain source d) {document : Path} {schema : Schema}
    (ht : g.Takes source d document schema) : Level document := by
  obtain ⟨rest, s, bytes, hr, -, -⟩ := ht
  obtain ⟨documents, hd, hmem⟩ := hr.remaining
  exact hp.documents documents hd _ (hmem _ rfl _ List.mem_cons_self)

theorem Plain.directed (hp : g.Plain source d) {document : Path} {schema : Schema}
    (ht : g.Takes source d document schema) {t : String} (hm : t ∈ schema.targets) :
    Stays g.output (g.directed document t) := by
  have ha := (hp.document ht).above
  exact (hp.join ha).join (Path.join_text_ne hp.output ha.relative) (hp.targets _ _ ht t hm)

theorem Plain.cases (hp : g.Plain source d) (h : g.Output source d p) : Stays g.output p ∨
    ".." ∉ (segments p).dropLast ∧ ∃ s ∈ (segments p).getLast?, Disk.isDots s = true := by
  cases h with
  | @header document schema _ ht ho =>
      have hs := hp.join (hp.document ht)
      rcases Path.withExtension_segments ho with rfl | ⟨ss, s, t, here, hseg, -, -, hq⟩
      · exact .inl hs
      · rcases hq with rfl | ⟨hl, hq⟩
        · exact .inr ⟨by decide, ".", rfl, rfl⟩
        · have hss : ".." ∉ ss := fun hm => hs.plain (by rw [hseg]; simp [hm])
          cases hdots : Disk.isDots t with
          | true =>
              rw [hq, List.dropLast_concat, List.getLast?_concat]
              exact .inr ⟨hss, t, rfl, hdots⟩
          | false =>
              refine .inl ⟨hl.trans hs.lead, ?_⟩
              rw [hq, List.mem_append, List.mem_singleton, not_or]
              refine ⟨hss, ?_⟩
              rintro rfl
              cases hdots
  | listing ht hm he => exact .inl ((hp.directed ht hm).congr (Setoid.symm he))
  | bindingHeader => exact .inl (hp.join hp.bindingHeader)
  | bindingSource => exact .inl (hp.join hp.bindingSource)

theorem Reaches.finishing_stays (h : g.Reaches source d c) (hp : g.Plain source d)
    {text marker : String} (ht : g.Turn source c p text marker)
    (hf : Finishing c.phase) : Stays g.output p := by
  have hc := h.planned
  cases ht with
  | header => exact absurd rfl (hf _)
  | listing =>
      obtain ⟨t, hm, he⟩ := List.mem_map.1 (hc.subset List.mem_cons_self)
      cases he
      obtain ⟨document, schema, u, htakes, hu, he⟩ := h.listed hm
      exact (hp.directed htakes hu).congr (Setoid.symm he)
  | binding =>
      have hm := hc.subset List.mem_cons_self
      simp only [bindingFiles, Binding.Registry.files, List.mem_cons, List.not_mem_nil, or_false,
        Prod.mk.injEq] at hm
      rcases hm with ⟨rfl, -⟩ | ⟨rfl, -⟩
      · exact hp.join hp.bindingHeader
      · exact hp.join hp.bindingSource
  | manifest => exact hp.join hp.manifest

end Generator

theorem Emitter.emit_undotted {e : Emitter} {text marker : String}
    (h : (e.emit p text marker).result = .ok ()) :
    ∃ s, (segments p).getLast? = some s ∧ Disk.isDots s = false := by
  obtain ⟨-, d, d', -, hw, -⟩ := emit_done h
  obtain ⟨l, s, hs, -, hdots, -⟩ := Disk.write_ok hw
  obtain ⟨-, -, -, hlast⟩ := Disk.slot_ok hs
  cases hz : (segments p).getLast? with
  | none =>
      rw [hz] at hlast
      rw [hlast] at hdots
      cases hdots
  | some t =>
      rw [hz, Option.getD_some] at hlast
      exact ⟨t, rfl, hlast ▸ hdots⟩

/-- On a tree an emission to a plain path leaves its text there, and nothing else but directories. -/
theorem Emitter.emit_plain {e : Emitter} {text marker : String} (ht : e.disk.IsTree)
    (hm : marker ≠ "") (hp : ".." ∉ segments p) (h : (e.emit p text marker).result = .ok ()) :
    ∃ l, (e.emit p text marker).emitter.disk.locate p = .ok l ∧
      (e.emit p text marker).emitter.disk.node? l = some (.file (encode text)) ∧
      ∀ m, m ≠ l → (e.emit p text marker).emitter.disk.node? m = e.disk.node? m ∨
        e.disk.node? m = none ∧ (e.emit p text marker).emitter.disk.node? m = some .directory := by
  obtain ⟨l, hl, hn, hother⟩ := emit_node h
  rcases hn with ⟨-, hsink⟩ | hn
  · have hthere := ht.locate (emit_grows e p text marker) hsink hp hl
    have hfind := Disk.find_ok.2 ⟨l, hthere, hsink⟩
    rcases (Disk.overwritable_true hm).1 (emit_done h).1 with hf | ⟨b, hf, -⟩
    · rw [hfind] at hf
      cases hf
    · rw [hfind] at hf
      cases hf
  · exact ⟨l, hl, hn, hother⟩

namespace Generator

open EntityGen.Path (Level Stays)

variable {g : Generator} {source : Source} {d : Disk} {c c' : Stage} {w : Path}

theorem Reaches.turn_stays (h : g.Reaches source d c) (hp : g.Plain source d) {text marker : String}
    (ht : g.Turn source c p text marker)
    (hr : (c.pass.emitter.emit p text marker).result = .ok ()) : Stays g.output p := by
  rcases h.origin ht with ⟨ho, -⟩ | ⟨rfl, -⟩
  · rcases hp.cases ho with hs | ⟨-, s, hs, hdots⟩
    · exact hs
    · obtain ⟨t, ht, hnot⟩ := Emitter.emit_undotted hr
      cases hs.symm.trans ht
      rw [hdots] at hnot
      cases hnot
  · exact hp.join hp.manifest

theorem Reaches.wrote_stays (h : g.Reaches source d c) (hp : g.Plain source d)
    (hw : w ∈ c.pass.wrote) : Stays g.output w := by
  obtain ⟨documents, hd, hc⟩ := h.course
  have hr : g.Reaches source d ⟨.documents documents, g.begin d⟩ := ⟨h.valid, documents, hd, .refl⟩
  refine hr.of_turns (P := fun _ written => ∀ w ∈ written, Stays g.output w) hc ?_ (by simp [Pass.wrote, begin]) w hw
  intro c p text marker hr ht _ ih w hw
  rcases List.mem_append.1 hw with hw | hw
  · exact ih w hw
  · obtain ⟨rfl, hok⟩ := mem_wrote_emission.1 hw
    exact hr.turn_stays hp ht hok

end Generator

end EntityGen
