import EntityGen.Proofs.Emission
import EntityGen.Run
import Mathlib.Logic.Relation

namespace EntityGen

open Text.Utf8 (encode)

/-- What a run has still to take up. -/
inductive Phase
  | documents (rest : List Path)
  | listings (rest : List (Path × String))
  | bindings (rest : List (Path × String))
  | done

structure Stage where
  phase : Phase
  pass : Pass

def Finishing (p : Phase) : Prop := ∀ rest, p ≠ .documents rest

theorem finishing_listings (files : List (Path × String)) : Finishing (.listings files) := by
  intro rest h
  cases h

theorem finishing_bindings (files : List (Path × String)) : Finishing (.bindings files) := by
  intro rest h
  cases h

theorem finishing_done : Finishing .done := by
  intro rest h
  cases h

def Pass.log? : Event → Option Path
  | .generated p => some p
  | _ => none

def Pass.wrote (s : Pass) : List Path := s.events.filterMap Pass.log?

namespace Generator

variable {g : Generator} {source : Source} {d : Disk} {s s' : Pass} {c c' : Stage}

def bindingFiles (g : Generator) (s : Pass) : List (Path × String) :=
  s.bindings.files g.config.marker (g.output / (g.config.bindingHeader : Path))
    (g.output / (g.config.bindingSource : Path))

def manifestText (g : Generator) (s : Pass) : String :=
  Manifest.text g.config.manifestVariable s.emitter.written g.config.manifestMarker

def writeManifest (g : Generator) (s : Pass) : Pass × Bool :=
  s.writeOnce g.manifestPath (g.manifestText s) g.config.manifestMarker

/-- One document or one output is taken up, or the next phase begins. -/
inductive Step (g : Generator) (source : Source) : Stage → Stage → Prop
  | document {s s' : Pass} {p : Path} {rest : List Path} : g.process source s p = .ok s' →
      Step g source ⟨.documents (p :: rest), s⟩ ⟨.documents rest, s'⟩
  | listings {s : Pass} : Step g source ⟨.documents [], s⟩ ⟨.listings (s.index.files g.config.marker), s⟩
  | listing {s : Pass} {p : Path} {text : String} {rest : List (Path × String)} :
      Step g source ⟨.listings ((p, text) :: rest), s⟩
        ⟨.listings rest, (s.writeOnce p text g.config.marker).1⟩
  | bindings {s : Pass} : Step g source ⟨.listings [], s⟩ ⟨.bindings (g.bindingFiles s), s⟩
  | binding {s : Pass} {p : Path} {text : String} {rest : List (Path × String)} :
      Step g source ⟨.bindings ((p, text) :: rest), s⟩
        ⟨.bindings rest, (s.writeOnce p text g.config.marker).1⟩
  | manifest {s : Pass} : Step g source ⟨.bindings [], s⟩ ⟨.done, (g.writeManifest s).1⟩

abbrev Leads (g : Generator) (source : Source) : Stage → Stage → Prop :=
  Relation.ReflTransGen (g.Step source)

structure Reaches (g : Generator) (source : Source) (d : Disk) (c : Stage) : Prop where
  valid : g.config.validate = .ok ()
  course : ∃ documents, source.paths d = .ok documents ∧
    g.Leads source ⟨.documents documents, g.begin d⟩ c

/-- Nothing is left to do, or a header has no path. -/
def Ended (g : Generator) (source : Source) (c : Stage) : Prop :=
  c.phase = .done ∨ ∃ p rest, c.phase = .documents (p :: rest) ∧ g.process source c.pass p = .error c.pass

theorem step_unique (g : Generator) (source : Source) : Relator.RightUnique (g.Step source) := by
  intro a b c hb hc
  cases hb with
  | document h =>
      cases hc with
      | document h' => cases h.symm.trans h'; rfl
  | listings | listing | bindings | binding | manifest => cases hc; rfl

theorem Ended.no_step (h : g.Ended source c) : ¬ g.Step source c c' := by
  intro hs
  rcases h with hd | ⟨p, rest, hd, he⟩
  · cases hs <;> cases hd
  · cases hs with
    | document hp =>
        cases hd
        rw [he] at hp
        cases hp
    | listings | listing | bindings | binding | manifest => cases hd

theorem Reaches.step (h : g.Reaches source d c) (hs : g.Step source c c') : g.Reaches source d c' where
  valid := h.valid
  course := h.course.imp fun _ hc => ⟨hc.1, hc.2.tail hs⟩

theorem Reaches.of_leads (h : g.Reaches source d c) (hl : g.Leads source c c') :
    g.Reaches source d c' where
  valid := h.valid
  course := h.course.imp fun _ hc => ⟨hc.1, hc.2.trans hl⟩

theorem Step.finishing (h : g.Step source c c') (hf : Finishing c.phase) : Finishing c'.phase := by
  cases h with
  | document => exact absurd rfl (hf _)
  | listings => exact finishing_listings _
  | listing => exact finishing_listings _
  | bindings => exact finishing_bindings _
  | binding => exact finishing_bindings _
  | manifest => exact finishing_done

theorem Leads.finishing (h : g.Leads source c c') (hf : Finishing c.phase) :
    Finishing c'.phase := by
  induction h with
  | refl => exact hf
  | tail _ hs ih => exact hs.finishing ih

/-- A run has one end, and each of its stages leads there. -/
theorem Reaches.leads (h : g.Reaches source d c) (h' : g.Reaches source d c')
    (he : g.Ended source c') : g.Leads source c c' := by
  obtain ⟨ds, hds, hc⟩ := h.course
  obtain ⟨ds', hds', hc'⟩ := h'.course
  cases hds.symm.trans hds'
  -- Of two stages of one course the first leads to the second, and nothing leads on from an end.
  rcases Relation.ReflTransGen.total_of_right_unique (g.step_unique source) hc hc' with hl | hl
  · exact hl
  · rcases Relation.ReflTransGen.cases_head hl with rfl | ⟨b, hb, -⟩
    · exact .refl
    · exact absurd hb he.no_step

theorem wrote_append {events : List Event} (h : s'.events = s.events ++ events) :
    s'.wrote = s.wrote ++ events.filterMap Pass.log? := by
  simp only [Pass.wrote, h, List.filterMap_append]

theorem wrote_eq {event : Event} (h : s'.events = s.events ++ [event]) (he : Pass.log? event = none) :
    s'.wrote = s.wrote := by
  rw [wrote_append h, List.filterMap_cons_none he, List.filterMap_nil, List.append_nil]

@[simp] theorem fail_wrote (s : Pass) (f : Failure) : (s.fail f).wrote = s.wrote := wrote_eq rfl rfl

@[simp] theorem count_wrote (s : Pass) (e : Entity) (p : Path) : (s.count e p).wrote = s.wrote := by
  simp only [Pass.count]
  split
  · exact wrote_eq rfl rfl
  · rfl

@[simp] theorem count_emitter (s : Pass) (e : Entity) (p : Path) :
    (s.count e p).emitter = s.emitter := by
  simp only [Pass.count]
  split <;> rfl

@[simp] theorem collect_wrote (s : Pass) (e : Entity) (p : Path) : (s.collect e p).wrote = s.wrote :=
  rfl

@[simp] theorem collect_emitter (s : Pass) (e : Entity) (p : Path) :
    (s.collect e p).emitter = s.emitter := rfl

@[simp] theorem bind_wrote (s : Pass) (e : Entity) (schema : Schema) :
    (s.bind e schema).wrote = s.wrote := by
  simp only [Pass.bind]
  split
  · split
    · exact wrote_eq rfl rfl
    · exact wrote_eq rfl rfl
  · rfl

@[simp] theorem bind_emitter (s : Pass) (e : Entity) (schema : Schema) :
    (s.bind e schema).emitter = s.emitter := by
  simp only [Pass.bind]
  split
  · split <;> rfl
  · rfl

theorem mem_wrote_emission {e : Emitter} {p q : Path} {text marker : String} :
    q ∈ (e.emit p text marker).events.filterMap Pass.log? ↔
      q = p ∧ (e.emit p text marker).result = .ok () := by
  cases hr : (e.emit p text marker).result with
  | error f =>
      rw [(Emitter.emit_failed hr).2.2]
      simp
  | ok u =>
      obtain ⟨-, d, d', -, -, he⟩ := Emitter.emit_done hr
      rw [he]
      simp [Pass.log?]

theorem process_cases {p : Path} (h : g.process source s p = .ok s') :
    (∃ f, source.read s.emitter.disk p = .error f ∧ s' = s.fail f) ∨
    (∃ bytes e, source.read s.emitter.disk p = .ok bytes ∧ Schema.parse bytes = .error e ∧
      s' = s.fail (.schema (source.display p) e)) ∨
    ∃ bytes schema output, source.read s.emitter.disk p = .ok bytes ∧
      Schema.parse bytes = .ok schema ∧ g.entityPath? p = some output ∧
        s' = g.generate s source p schema output := by
  simp only [process] at h
  split at h
  next f hf => exact .inl ⟨f, hf, (Except.ok.inj h).symm⟩
  next bytes hb =>
    split at h
    next e he => exact .inr (.inl ⟨bytes, e, hb, he, (Except.ok.inj h).symm⟩)
    next schema hs =>
      split at h
      · cases h
      next output ho =>
        exact .inr (.inr ⟨bytes, schema, output, hb, hs, ho, (Except.ok.inj h).symm⟩)

theorem process_error {p : Path} {t : Pass} (h : g.process source s p = .error t) : t = s := by
  simp only [process] at h
  split at h
  · cases h
  · split at h
    · cases h
    · split at h
      · exact (Except.error.inj h).symm
      · cases h

def announced (s : Pass) (source : Source) (document output : Path) : Pass :=
  s.log (.generating (source.display document) output)

theorem generate_failed {document output : Path} {schema : Schema} {f : Failure}
    (h : (s.emitter.emit output (Entity.ofSchema g.config schema output).text
      g.config.marker).result = .error f) :
    g.generate s source document schema output =
      ((announced s source document output).emit output
        (Entity.ofSchema g.config schema output).text g.config.marker).1.fail f := by
  simp only [generate, announced, Pass.emit, Pass.log, h]

theorem generate_done {document output : Path} {schema : Schema}
    (h : (s.emitter.emit output (Entity.ofSchema g.config schema output).text
      g.config.marker).result = .ok ()) :
    g.generate s source document schema output =
      ((((announced s source document output).emit output
        (Entity.ofSchema g.config schema output).text g.config.marker).1.count
          (Entity.ofSchema g.config schema output) (source.display document)).collect
            (Entity.ofSchema g.config schema output) (g.directiveDirectory document)).bind
              (Entity.ofSchema g.config schema output) schema := by
  simp only [generate, announced, Pass.emit, Pass.log, h]

theorem generate_emitter (g : Generator) (s : Pass) (source : Source) (document : Path)
    (schema : Schema) (output : Path) :
    (g.generate s source document schema output).emitter =
      (s.emitter.emit output (Entity.ofSchema g.config schema output).text g.config.marker).emitter := by
  cases hr : (s.emitter.emit output (Entity.ofSchema g.config schema output).text
      g.config.marker).result with
  | error f =>
      rw [generate_failed hr]
      rfl
  | ok u =>
      rw [generate_done hr, bind_emitter, collect_emitter, count_emitter]
      rfl

theorem generate_wrote (g : Generator) (s : Pass) (source : Source) (document : Path)
    (schema : Schema) (output : Path) :
    (g.generate s source document schema output).wrote = s.wrote ++
      (s.emitter.emit output (Entity.ofSchema g.config schema output).text
        g.config.marker).events.filterMap Pass.log? := by
  have ha : (announced s source document output).wrote = s.wrote := wrote_eq rfl rfl
  rw [← ha]
  cases hr : (s.emitter.emit output (Entity.ofSchema g.config schema output).text
      g.config.marker).result with
  | error f =>
      rw [generate_failed hr, fail_wrote]
      exact wrote_append rfl
  | ok u =>
      rw [generate_done hr, bind_wrote, collect_wrote, count_wrote]
      exact wrote_append rfl

theorem writeOnce_cases (s : Pass) (p : Path) (text marker : String) :
    (s.emitter.hasWritten p = true ∧ s.writeOnce p text marker = (s.fail (.outputConflict p), false)) ∨
    s.emitter.hasWritten p = false ∧
      ((∃ f, (s.emitter.emit p text marker).result = .error f ∧
        s.writeOnce p text marker = ((s.emit p text marker).1.fail f, false)) ∨
      (s.emitter.emit p text marker).result = .ok () ∧
        s.writeOnce p text marker = ((s.emit p text marker).1, true)) := by
  simp only [Pass.writeOnce]
  cases hw : s.emitter.hasWritten p with
  | true => exact .inl ⟨rfl, rfl⟩
  | false =>
      refine .inr ⟨rfl, ?_⟩
      simp only [Bool.false_eq_true, if_false]
      cases hr : (s.emitter.emit p text marker).result with
      | error f => exact .inl ⟨f, rfl, by simp only [Pass.emit, hr]⟩
      | ok u => exact .inr ⟨rfl, by simp only [Pass.emit, hr]⟩

theorem writeOnce_emitter (s : Pass) (p : Path) (text marker : String) :
    (s.writeOnce p text marker).1.emitter =
      if s.emitter.hasWritten p then s.emitter else (s.emitter.emit p text marker).emitter := by
  rcases writeOnce_cases s p text marker with ⟨hw, he⟩ | ⟨hw, ⟨f, -, he⟩ | ⟨-, he⟩⟩
  all_goals
    rw [he, hw]
    rfl

theorem writeOnce_wrote (s : Pass) (p : Path) (text marker : String) :
    (s.writeOnce p text marker).1.wrote =
      if s.emitter.hasWritten p then s.wrote
      else s.wrote ++ (s.emitter.emit p text marker).events.filterMap Pass.log? := by
  rcases writeOnce_cases s p text marker with ⟨hw, he⟩ | ⟨hw, ⟨f, -, he⟩ | ⟨-, he⟩⟩
  · rw [he, hw, fail_wrote]
    rfl
  · rw [he, hw, fail_wrote]
    exact wrote_append rfl
  · rw [he, hw]
    exact wrote_append rfl

/-- What a run asks its emitter for: a text that begins with its marker, which is the marker of the
configuration unless the path is the manifest's. -/
structure Asks (g : Generator) (p : Path) (text marker : String) : Prop where
  opens : Opens marker (encode text)
  marked : marker = g.config.marker ∨ marker = g.config.manifestMarker ∧ p = g.manifestPath

theorem Asks.marker_ne {p : Path} {text marker : String} (ha : g.Asks p text marker)
    (h : g.config.validate = .ok ()) : marker ≠ "" := by
  rcases ha.marked with rfl | ⟨rfl, -⟩
  · exact Config.marker_ne h
  · exact Config.manifestMarker_ne g.config

theorem asks_of_append {p : Path} {rest : String} :
    g.Asks p (g.config.marker ++ rest) g.config.marker :=
  ⟨opens_append _ _, .inl rfl⟩

theorem asks_header (schema : Schema) (output : Path) :
    g.Asks output (Entity.ofSchema g.config schema output).text g.config.marker := by
  simp only [Entity.ofSchema, Struct.header, preamble, String.append_assoc]
  exact asks_of_append

theorem asks_listing {index : Listing.Index} {f : Path × String}
    (h : f ∈ index.files g.config.marker) : g.Asks f.1 f.2 g.config.marker := by
  obtain ⟨t, -, rfl⟩ := List.mem_map.1 h
  simp only [Listing.Index.text, Listing.fileText, preamble, String.append_assoc]
  exact asks_of_append

theorem asks_binding {f : Path × String} (h : f ∈ g.bindingFiles s) :
    g.Asks f.1 f.2 g.config.marker := by
  simp only [bindingFiles, Binding.Registry.files, List.mem_cons, List.not_mem_nil, or_false] at h
  rcases h with rfl | rfl
  · simp only [Binding.Registry.header, Binding.headerText, preamble, String.append_assoc]
    exact asks_of_append
  · simp only [Binding.Registry.source, Binding.sourceText, String.append_assoc]
    exact asks_of_append

theorem asks_manifest (s : Pass) :
    g.Asks g.manifestPath (g.manifestText s) g.config.manifestMarker := by
  refine ⟨?_, .inr ⟨rfl, rfl⟩⟩
  simp only [manifestText, Manifest.text, String.append_assoc]
  exact opens_append _ _

@[simp] theorem writeOnce_bindings (s : Pass) (p : Path) (text marker : String) :
    (s.writeOnce p text marker).1.bindings = s.bindings := by
  rcases writeOnce_cases s p text marker with ⟨-, he⟩ | ⟨-, ⟨f, -, he⟩ | ⟨-, he⟩⟩ <;> rw [he] <;> rfl

@[simp] theorem writeOnce_index (s : Pass) (p : Path) (text marker : String) :
    (s.writeOnce p text marker).1.index = s.index := by
  rcases writeOnce_cases s p text marker with ⟨-, he⟩ | ⟨-, ⟨f, -, he⟩ | ⟨-, he⟩⟩ <;> rw [he] <;> rfl

@[simp] theorem writeOnce_entities (s : Pass) (p : Path) (text marker : String) :
    (s.writeOnce p text marker).1.entities = s.entities := by
  rcases writeOnce_cases s p text marker with ⟨-, he⟩ | ⟨-, ⟨f, -, he⟩ | ⟨-, he⟩⟩ <;> rw [he] <;> rfl

/-- The files still to come are the last ones of those that the phase began with. -/
def Planned (g : Generator) : Stage → Prop
  | ⟨.listings rest, s⟩ => rest <:+ s.index.files g.config.marker
  | ⟨.bindings rest, s⟩ => rest <:+ g.bindingFiles s
  | _ => True

theorem Step.planned (h : g.Step source c c') (hc : g.Planned c) : g.Planned c' := by
  cases h with
  | document | manifest => trivial
  | listings | bindings => exact List.suffix_refl _
  | listing =>
      simp only [Planned, writeOnce_index] at hc ⊢
      exact (List.suffix_cons _ _).trans hc
  | binding =>
      simp only [Planned, bindingFiles, writeOnce_bindings] at hc ⊢
      exact (List.suffix_cons _ _).trans hc

theorem Reaches.planned (h : g.Reaches source d c) : g.Planned c := by
  obtain ⟨documents, -, hc⟩ := h.course
  clear h
  induction hc with
  | refl => trivial
  | tail _ hs ih => exact hs.planned ih

/-- What a stage is about to write. -/
inductive Turn (g : Generator) (source : Source) : Stage → Path → String → String → Prop
  | header {s : Pass} {document output : Path} {rest : List Path} {bytes : Text.Utf8.Bytes}
      {schema : Schema} : source.read s.emitter.disk document = .ok bytes →
      Schema.parse bytes = .ok schema → g.entityPath? document = some output →
      Turn g source ⟨.documents (document :: rest), s⟩ output
        (Entity.ofSchema g.config schema output).text g.config.marker
  | listing {s : Pass} {p : Path} {text : String} {rest : List (Path × String)} :
      Turn g source ⟨.listings ((p, text) :: rest), s⟩ p text g.config.marker
  | binding {s : Pass} {p : Path} {text : String} {rest : List (Path × String)} :
      Turn g source ⟨.bindings ((p, text) :: rest), s⟩ p text g.config.marker
  | manifest {s : Pass} : Turn g source ⟨.bindings [], s⟩ g.manifestPath (g.manifestText s)
      g.config.manifestMarker

theorem Reaches.asks (h : g.Reaches source d c) {p : Path} {text marker : String}
    (ht : g.Turn source c p text marker) : g.Asks p text marker := by
  have hc := h.planned
  cases ht with
  | header => exact asks_header _ _
  | listing => exact asks_listing (hc.subset List.mem_cons_self)
  | binding => exact asks_binding (hc.subset List.mem_cons_self)
  | manifest => exact asks_manifest _

section

variable {P : Emitter → List Path → Prop}

theorem writeOnce_emission {p : Path} {text marker : String} (hs : P s.emitter s.wrote)
    (h : s.emitter.hasWritten p = false → P (s.emitter.emit p text marker).emitter
      (s.wrote ++ (s.emitter.emit p text marker).events.filterMap Pass.log?)) :
    P (s.writeOnce p text marker).1.emitter (s.writeOnce p text marker).1.wrote := by
  rw [writeOnce_emitter, writeOnce_wrote]
  split
  · exact hs
  next hw => exact h (Bool.eq_false_iff.2 hw)

theorem Step.of_turn (h : g.Step source c c')
    (emission : ∀ p text marker, g.Turn source c p text marker →
      (Finishing c.phase → c.pass.emitter.hasWritten p = false) →
      P (c.pass.emitter.emit p text marker).emitter
        (c.pass.wrote ++ (c.pass.emitter.emit p text marker).events.filterMap Pass.log?))
    (hP : P c.pass.emitter c.pass.wrote) : P c'.pass.emitter c'.pass.wrote := by
  cases h with
  | listings | bindings => exact hP
  | document hp =>
      rcases process_cases hp with
        ⟨f, -, rfl⟩ | ⟨bytes, e, -, -, rfl⟩ | ⟨bytes, schema, output, hb, hs, ho, rfl⟩
      · rw [fail_wrote]
        exact hP
      · rw [fail_wrote]
        exact hP
      · rw [generate_emitter, generate_wrote]
        exact emission _ _ _ (.header hb hs ho) fun hf => absurd rfl (hf _)
  | listing => exact writeOnce_emission hP fun hw => emission _ _ _ .listing fun _ => hw
  | binding => exact writeOnce_emission hP fun hw => emission _ _ _ .binding fun _ => hw
  | manifest => exact writeOnce_emission hP fun hw => emission _ _ _ .manifest fun _ => hw

/-- What each emission preserves, of the emitter and the paths written, lasts from any stage on. -/
theorem Reaches.of_turns (h : g.Reaches source d c) (hl : g.Leads source c c')
    (emission : ∀ c p text marker, g.Reaches source d c → g.Turn source c p text marker →
      (Finishing c.phase → c.pass.emitter.hasWritten p = false) →
      P c.pass.emitter c.pass.wrote → P (c.pass.emitter.emit p text marker).emitter
        (c.pass.wrote ++ (c.pass.emitter.emit p text marker).events.filterMap Pass.log?))
    (hP : P c.pass.emitter c.pass.wrote) : P c'.pass.emitter c'.pass.wrote := by
  induction hl with
  | refl => exact hP
  | tail hl hs ih =>
      exact hs.of_turn
        (fun p text marker ht hw => emission _ p text marker (h.of_leads hl) ht hw ih) ih

theorem Reaches.of_emissions (h : g.Reaches source d c)
    (emission : ∀ e written p text marker, P e written → g.Asks p text marker →
      P (e.emit p text marker).emitter
        (written ++ (e.emit p text marker).events.filterMap Pass.log?))
    (start : P { disk := d } []) : P c.pass.emitter c.pass.wrote := by
  obtain ⟨documents, hd, hc⟩ := h.course
  have hr : g.Reaches source d ⟨.documents documents, g.begin d⟩ := ⟨h.valid, documents, hd, .refl⟩
  exact hr.of_turns hc (fun _ _ _ _ hr ht _ hP => emission _ _ _ _ _ hP (hr.asks ht)) start

end

theorem Leads.wrote (h : g.Leads source c c') {p : Path} (hp : p ∈ c.pass.wrote) :
    p ∈ c'.pass.wrote := by
  induction h with
  | refl => exact hp
  | tail _ hs ih =>
      exact hs.of_turn (P := fun _ written => p ∈ written)
        (fun _ _ _ _ _ => List.mem_append_left _ ih) ih

theorem Step.grows (h : g.Step source c c') :
    c.pass.emitter.disk.Grows c'.pass.emitter.disk :=
  h.of_turn (P := fun e _ => c.pass.emitter.disk.Grows e.disk)
    (fun p text marker _ _ => Emitter.emit_grows c.pass.emitter p text marker) (.refl _)

theorem Leads.grows (h : g.Leads source c c') :
    c.pass.emitter.disk.Grows c'.pass.emitter.disk := by
  induction h with
  | refl => exact .refl _
  | tail _ hs ih => exact ih.trans hs.grows

theorem Reaches.grows (h : g.Reaches source d c) : d.Grows c.pass.emitter.disk := by
  obtain ⟨documents, -, hc⟩ := h.course
  exact Leads.grows hc

theorem Reaches.isTree (h : g.Reaches source d c) (ht : d.IsTree) : c.pass.emitter.disk.IsTree :=
  h.of_emissions (P := fun e _ => e.disk.IsTree)
    (fun _ _ p text marker he _ => Emitter.emit_isTree he p text marker) ht

theorem Leads.documents {documents : List Path} :
    (∀ s', documents.foldlM (g.process source) s = .ok s' →
      g.Leads source ⟨.documents documents, s⟩ ⟨.documents [], s'⟩) ∧
    ∀ t, documents.foldlM (g.process source) s = .error t → ∃ p rest,
      g.Leads source ⟨.documents documents, s⟩ ⟨.documents (p :: rest), t⟩ ∧
        g.process source t p = .error t := by
  induction documents generalizing s with
  | nil =>
      constructor
      · intro s' hs
        cases hs
        exact .refl
      · intro t ht
        cases ht
  | cons p rest ih =>
      rw [List.foldlM_cons]
      cases hp : g.process source s p with
      | ok s₁ =>
          constructor
          · intro s' hs
            exact .head (.document hp) (ih.1 s' hs)
          · intro t ht
            obtain ⟨q, rest', hl, hq⟩ := ih.2 t ht
            exact ⟨q, rest', .head (.document hp) hl, hq⟩
      | error t =>
          constructor
          · intro s' hs
            cases hs
          · intro t' ht
            cases ht
            cases process_error hp
            exact ⟨p, rest, .refl, hp⟩

def writeAll (g : Generator) (s : Pass) (files : List (Path × String)) : Pass :=
  files.foldl (fun s f => (s.writeOnce f.1 f.2 g.config.marker).1) s

theorem Leads.listings (files : List (Path × String)) :
    g.Leads source ⟨.listings files, s⟩ ⟨.listings [], g.writeAll s files⟩ := by
  induction files generalizing s with
  | nil => exact .refl
  | cons f files ih => exact .head .listing ih

theorem Leads.bindings (files : List (Path × String)) :
    g.Leads source ⟨.bindings files, s⟩ ⟨.bindings [], g.writeAll s files⟩ := by
  induction files generalizing s with
  | nil => exact .refl
  | cons f files ih => exact .head .binding ih

theorem writeAll_bindings (s : Pass) (files : List (Path × String)) :
    (g.writeAll s files).bindings = s.bindings := by
  induction files generalizing s with
  | nil => rfl
  | cons f files ih => exact (ih _).trans (writeOnce_bindings s f.1 f.2 _)

def shared (g : Generator) (s : Pass) : Pass :=
  g.writeAll (g.writeAll s (s.index.files g.config.marker)) (g.bindingFiles s)

theorem Leads.listed (s : Pass) : g.Leads source ⟨.documents [], s⟩
    ⟨.bindings (g.bindingFiles s), g.writeAll s (s.index.files g.config.marker)⟩ := by
  have hb : g.bindingFiles (g.writeAll s (s.index.files g.config.marker)) = g.bindingFiles s := by
    rw [bindingFiles, writeAll_bindings, bindingFiles]
  exact hb ▸ (Relation.ReflTransGen.head Step.listings (Leads.listings _)).tail Step.bindings

theorem Leads.shared (s : Pass) :
    g.Leads source ⟨.documents [], s⟩ ⟨.bindings [], g.shared s⟩ :=
  (Leads.listed s).trans (Leads.bindings _)

theorem finish_eq (g : Generator) (s : Pass) : g.finish s = ((g.writeManifest (g.shared s)).1, {
    generated := (g.shared s).emitter.written
    manifest := if (g.writeManifest (g.shared s)).2 then some g.manifestPath else none
    entities := (g.writeManifest (g.shared s)).1.entities
    failures := (g.writeManifest (g.shared s)).1.failures }) := by
  simp only [finish, sharedFiles, List.foldl_append]
  rfl

theorem run_of_invalid {e : ConfigError} (h : g.config.validate = .error e) :
    g.run source d = ⟨d, .aborted (.config e), []⟩ := by
  simp only [run, h]

theorem run_of_no_paths {f : Failure} (hv : g.config.validate = .ok ()) (hd : source.paths d = .error f) :
    g.run source d = ⟨d, .aborted f, []⟩ := by
  simp only [run, hv, hd]

theorem run_of_error {documents : List Path} (hv : g.config.validate = .ok ())
    (hd : source.paths d = .ok documents)
    (hf : documents.foldlM (g.process source) (g.begin d) = .error s) :
    g.run source d = ⟨s.emitter.disk, .crashed, source.listed documents ++ s.events⟩ := by
  simp only [run, hv, hd, hf]

theorem run_of_ok {documents : List Path} (hv : g.config.validate = .ok ())
    (hd : source.paths d = .ok documents)
    (hf : documents.foldlM (g.process source) (g.begin d) = .ok s) :
    g.run source d = ⟨(g.finish s).1.emitter.disk, .finished (g.finish s).2,
      source.listed documents ++ (g.finish s).1.events⟩ := by
  simp only [run, hv, hd, hf]

theorem run_cases (g : Generator) (source : Source) (d : Disk) :
    ((∀ c, ¬ g.Reaches source d c) ∧ ∃ f, g.run source d = ⟨d, .aborted f, []⟩) ∨
    (∃ documents p rest s, source.paths d = .ok documents ∧
      g.Reaches source d ⟨.documents (p :: rest), s⟩ ∧ g.process source s p = .error s ∧
      g.run source d = ⟨s.emitter.disk, .crashed, source.listed documents ++ s.events⟩) ∨
    ∃ documents s, source.paths d = .ok documents ∧ g.Reaches source d ⟨.documents [], s⟩ ∧
      g.run source d = ⟨(g.finish s).1.emitter.disk, .finished (g.finish s).2,
        source.listed documents ++ (g.finish s).1.events⟩ := by
  cases hv : g.config.validate with
  | error e => exact .inl ⟨fun c h => (nomatch h.valid.symm.trans hv), _, run_of_invalid hv⟩
  | ok u =>
      cases hd : source.paths d with
      | error f =>
          refine .inl ⟨fun c h => ?_, _, run_of_no_paths hv hd⟩
          obtain ⟨documents, hp, -⟩ := h.course
          rw [hd] at hp
          cases hp
      | ok documents =>
          cases hf : documents.foldlM (g.process source) (g.begin d) with
          | error t =>
              obtain ⟨p, rest, hl, hp⟩ := Leads.documents.2 t hf
              exact .inr (.inl ⟨documents, p, rest, t, rfl, ⟨hv, documents, hd, hl⟩, hp,
                run_of_error hv hd hf⟩)
          | ok s =>
              have hl := Leads.documents.1 s hf
              exact .inr (.inr ⟨documents, s, rfl, ⟨hv, documents, hd, hl⟩, run_of_ok hv hd hf⟩)

def last (g : Generator) (s : Pass) : Stage := ⟨.done, (g.writeManifest (g.shared s)).1⟩

theorem Reaches.last (h : g.Reaches source d ⟨.documents [], s⟩) : g.Reaches source d (g.last s) :=
  h.of_leads ((Leads.shared s).tail .manifest)

theorem run_finished {r : Report} (hr : (g.run source d).outcome = .finished r) :
    ∃ s, g.Reaches source d ⟨.documents [], s⟩ ∧ r = (g.finish s).2 ∧
      (g.run source d).disk = (g.last s).pass.emitter.disk := by
  rcases g.run_cases source d with
    ⟨-, f, he⟩ | ⟨_, p, rest, s, -, -, -, he⟩ | ⟨documents, s, -, h, he⟩
  · rw [he] at hr
    cases hr
  · rw [he] at hr
    cases hr
  · rw [he] at hr ⊢
    refine ⟨s, h, (Outcome.finished.inj hr).symm, ?_⟩
    rw [finish_eq]
    rfl

theorem finished_documents {documents : List Path} (hd : source.paths d = .ok documents) {r : Report}
    (hr : (g.run source d).outcome = .finished r) : ∃ s, g.config.validate = .ok () ∧
      documents.foldlM (g.process source) (g.begin d) = .ok s ∧ r = (g.finish s).2 ∧
        (g.run source d).disk = (g.last s).pass.emitter.disk := by
  obtain ⟨_, hvalid, -, -⟩ := run_finished hr
  have hv := hvalid.valid
  cases hs : documents.foldlM (g.process source) (g.begin d) with
  | error t =>
      rw [run_of_error hv hd hs] at hr
      cases hr
  | ok s =>
      rw [run_of_ok hv hd hs] at hr ⊢
      refine ⟨s, hv, rfl, (Outcome.finished.inj hr).symm, ?_⟩
      rw [finish_eq]
      rfl

theorem run_disk (g : Generator) (source : Source) (d : Disk) :
    ((∀ c, ¬ g.Reaches source d c) ∧ (g.run source d).disk = d) ∨
    ∃ c, g.Reaches source d c ∧ g.Ended source c ∧ (g.run source d).disk = c.pass.emitter.disk := by
  rcases g.run_cases source d with
    ⟨hn, f, hr⟩ | ⟨_, p, rest, s, -, h, hp, hr⟩ | ⟨_, s, -, h, hr⟩
  · exact .inl ⟨hn, by rw [hr]⟩
  · exact .inr ⟨_, h, .inr ⟨p, rest, rfl, hp⟩, by rw [hr]⟩
  · exact .inr ⟨g.last s, h.last, .inl rfl, by rw [hr, finish_eq]; rfl⟩

end Generator

end EntityGen
