import EntityGen.Proofs.Run.Ledger

namespace EntityGen

namespace Generator

variable {g : Generator} {source : Source} {d : Disk} {s t : Pass} {p : Path} {documents : List Path}

theorem entityPath?_eq_none : g.entityPath? p = none ↔ '/' ∈ g.config.outputExt.toList :=
  ⟨Path.withExtension_none, fun h => by rw [entityPath?, Path.withExtension?, if_pos h]⟩

def IsSchema (source : Source) (d : Disk) (p : Path) : Prop :=
  ∃ bytes schema, source.read d p = .ok bytes ∧ Schema.parse bytes = .ok schema

theorem process_crashes (h : '/' ∈ g.config.outputExt.toList) (hp : IsSchema source s.emitter.disk p) :
    g.process source s p = .error s := by
  obtain ⟨bytes, schema, hb, hs⟩ := hp
  simp only [process, hb, hs, entityPath?_eq_none.2 h]

theorem process_passes (g : Generator) (hp : ¬ IsSchema source s.emitter.disk p) :
    ∃ f, g.process source s p = .ok (s.fail f) := by
  simp only [process]
  split
  next f _ => exact ⟨f, rfl⟩
  next bytes hb =>
    split
    · exact ⟨_, rfl⟩
    next schema hs => exact absurd ⟨bytes, schema, hb, hs⟩ hp

theorem documents_crash (h : '/' ∈ g.config.outputExt.toList)
    (hp : ∃ p ∈ documents, IsSchema source s.emitter.disk p) :
    ∃ t, documents.foldlM (g.process source) s = .error t ∧ t.emitter = s.emitter := by
  induction documents generalizing s with
  | nil =>
      obtain ⟨p, hp, -⟩ := hp
      cases hp
  | cons p rest ih =>
      rw [List.foldlM_cons]
      by_cases hschema : IsSchema source s.emitter.disk p
      · rw [process_crashes h hschema]
        exact ⟨s, rfl, rfl⟩
      · obtain ⟨f, hf⟩ := process_passes g hschema
        obtain ⟨q, hq, hqs⟩ := hp
        rw [hf]
        rcases List.mem_cons.1 hq with rfl | hq
        · exact absurd hqs hschema
        · exact ih (s := s.fail f) ⟨q, hq, hqs⟩

theorem documents_pass (h : ∀ p ∈ documents, ¬ IsSchema source s.emitter.disk p) :
    ∃ t, documents.foldlM (g.process source) s = .ok t := by
  induction documents generalizing s with
  | nil => exact ⟨s, rfl⟩
  | cons p rest ih =>
      obtain ⟨hp, hrest⟩ := List.forall_mem_cons.1 h
      obtain ⟨f, hf⟩ := process_passes g hp
      rw [List.foldlM_cons, hf]
      exact ih (s := s.fail f) hrest

theorem documents_finish (h : '/' ∉ g.config.outputExt.toList) :
    ∃ t, documents.foldlM (g.process source) s = .ok t := by
  cases hs : documents.foldlM (g.process source) s with
  | ok t => exact ⟨t, rfl⟩
  | error t =>
      obtain ⟨p, rest, -, hp⟩ := Leads.documents.2 t hs
      exact absurd (process_crashed hp) h

theorem run_crashes (hv : g.config.validate = .ok ()) (hd : source.paths d = .ok documents)
    (hslash : '/' ∈ g.config.outputExt.toList) (hp : ∃ p ∈ documents, IsSchema source d p) :
    (g.run source d).outcome = .crashed ∧ (g.run source d).disk = d := by
  obtain ⟨t, ht, he⟩ := documents_crash (s := g.begin d) hslash hp
  rw [run_of_error hv hd ht, he]
  exact ⟨rfl, rfl⟩

theorem run_finishes (hv : g.config.validate = .ok ()) (hd : source.paths d = .ok documents)
    (h : '/' ∉ g.config.outputExt.toList ∨ ∀ p ∈ documents, ¬ IsSchema source d p) :
    ∃ r, (g.run source d).outcome = .finished r := by
  have hend : ∃ t, documents.foldlM (g.process source) (g.begin d) = .ok t := by
    rcases h with hslash | hnone
    · exact documents_finish hslash
    · exact documents_pass hnone
  obtain ⟨t, ht⟩ := hend
  exact ⟨_, by rw [run_of_ok hv hd ht]⟩

/-- The documents that stop a run. -/
def Crashes (g : Generator) (source : Source) (d : Disk) : Prop :=
  g.config.validate = .ok () ∧ '/' ∈ g.config.outputExt.toList ∧
    ∃ documents, source.paths d = .ok documents ∧ ∃ p ∈ documents, IsSchema source d p

theorem run_crashed (h : (g.run source d).outcome = .crashed) : g.Crashes source d := by
  rcases g.run_cases source d with ⟨-, f, hr⟩ | ⟨documents, p, rest, s, hd, hc, hp, -⟩ | ⟨documents, s, -, -, hr⟩
  · rw [hr] at h
    cases h
  · by_cases hschema : ∃ p ∈ documents, IsSchema source d p
    · exact ⟨hc.valid, process_crashed hp, documents, hd, hschema⟩
    · obtain ⟨r, hr⟩ := run_finishes hc.valid hd (.inr fun q hq hs => hschema ⟨q, hq, hs⟩)
      rw [hr] at h
      cases h
  · rw [hr] at h
    cases h

/-- A run has no end if and only if its output extension holds a slash and one of its documents is a schema,
and it has written nothing then. Otherwise it ends with a report once its configuration is valid and its
documents are known. Whatever is collected on the way, each list is found where its key says. -/
theorem crashes_iff (g : Generator) (source : Source) (d : Disk) :
    ((g.run source d).outcome = .crashed ↔ g.Crashes source d) ∧
    (g.Crashes source d → (g.run source d).disk = d) ∧
    (¬ g.Crashes source d → g.config.validate = .ok () → ∀ documents, source.paths d = .ok documents →
      ∃ r, (g.run source d).outcome = .finished r) ∧
    ∀ c, g.Reaches source d c → c.pass.index.Sound := by
  refine ⟨⟨run_crashed, ?_⟩, ?_, ?_, fun c hc => ?_⟩
  · rintro ⟨hv, hslash, documents, hd, hp⟩
    exact (run_crashes hv hd hslash hp).1
  · rintro ⟨hv, hslash, documents, hd, hp⟩
    exact (run_crashes hv hd hslash hp).2
  · intro hno hv documents hd
    by_cases hslash : '/' ∈ g.config.outputExt.toList
    · exact run_finishes hv hd (.inr fun p hp hs => hno ⟨hv, hslash, documents, hd, p, hp, hs⟩)
    · exact run_finishes hv hd (.inl hslash)
  · obtain ⟨documents, -, ha⟩ := hc.accounted
    obtain ⟨hs, -, ha⟩ := ha.from
    exact ha.index.sound

def slashed : Generator := ⟨{ outputExtension := "a/b" }, "out"⟩

def oneListed : Source := .inMemory [("a.json", some (Text.Utf8.encode "\x7b\"name\":\"A\"\x7d"))]

/-- The configuration is valid, and the run has no end. -/
theorem slash_crashes : slashed.config.validate = .ok () ∧
    oneListed.paths bare = .ok ["a.json"] ∧ (slashed.run oneListed bare).outcome = .crashed := by
  decide +kernel

end Generator

end EntityGen
