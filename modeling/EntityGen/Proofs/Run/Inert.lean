import EntityGen.Proofs.Run.Handwritten

namespace EntityGen

open FileSystem (overwritable)
open Text.Utf8 (Bytes encode)

namespace Pass

variable {s : Pass} {p : Path} {text marker : String}

/-- The state with these failures and events told before its own. -/
def told (s : Pass) (fs : List Failure) (es : List Event) : Pass :=
  { s with failures := fs ++ s.failures, events := es ++ s.events }

variable (fs : List Failure) (es : List Event)

theorem log_told (e : Event) : (s.told fs es).log e = (s.log e).told fs es := by
  simp only [told, log, List.append_assoc]

theorem fail_told (f : Failure) : (s.told fs es).fail f = (s.fail f).told fs es := by
  simp only [told, fail, List.append_assoc]

theorem emit_told : (s.told fs es).emit p text marker =
    ((s.emit p text marker).1.told fs es, (s.emit p text marker).2) := by
  simp only [told, emit, List.append_assoc]

theorem writeOnce_told : (s.told fs es).writeOnce p text marker =
    ((s.writeOnce p text marker).1.told fs es, (s.writeOnce p text marker).2) := by
  have hw : (s.told fs es).emitter.hasWritten p = s.emitter.hasWritten p := rfl
  simp only [writeOnce, hw, emit_told]
  split
  · rw [fail_told]
  · rcases s.emit p text marker with ⟨t, f | u⟩
    · rw [← fail_told]
    · rfl

theorem count_told (e : Entity) (document : Path) :
    (s.told fs es).count e document = (s.count e document).told fs es := by
  have hs : (s.told fs es).seen = s.seen := rfl
  simp only [count, hs]
  split
  · simp only [told, log, List.append_assoc]
  · rfl

theorem collect_told (e : Entity) (directory : Path) :
    (s.told fs es).collect e directory = (s.collect e directory).told fs es := rfl

theorem bind_told (e : Entity) (schema : Schema) :
    (s.told fs es).bind e schema = (s.bind e schema).told fs es := by
  have hb : (s.told fs es).bindings = s.bindings := rfl
  simp only [bind, hb]
  split
  · split
    · rw [fail_told]
    · simp only [told, log, List.append_assoc]
  · rfl

end Pass

namespace Generator

variable {g : Generator} {source source' : Source} {d : Disk} {s s' : Pass} {p : Path} {f : Failure}

section

variable (fs : List Failure) (es : List Event)

theorem generate_told (document : Path) (schema : Schema) (output : Path) :
    g.generate (s.told fs es) source document schema output =
      (g.generate s source document schema output).told fs es := by
  simp only [generate, Pass.log_told, Pass.emit_told]
  rcases (s.log _).emit output _ g.config.marker with ⟨t, f | u⟩
  · rw [← Pass.fail_told]
  · simp only [Pass.count_told, Pass.collect_told, Pass.bind_told]

/-- The end of one document, or of many, reached after these failures and events. -/
def toldEnd : Except Pass Pass → Except Pass Pass
  | .ok t => .ok (t.told fs es)
  | .error t => .error (t.told fs es)

theorem process_told (document : Path) : g.process source (s.told fs es) document =
    toldEnd fs es (g.process source s document) := by
  have he : (s.told fs es).emitter = s.emitter := rfl
  simp only [process, he]
  split
  · rw [Pass.fail_told, toldEnd]
  · split
    · rw [Pass.fail_told, toldEnd]
    · split
      · rfl
      · rw [generate_told, toldEnd]

theorem documents_told (documents : List Path) :
    documents.foldlM (g.process source) (s.told fs es) =
      toldEnd fs es (documents.foldlM (g.process source) s) := by
  induction documents generalizing s with
  | nil => rfl
  | cons p rest ih =>
      rw [List.foldlM_cons, List.foldlM_cons, process_told]
      cases g.process source s p with
      | ok t => exact ih
      | error t => rfl

theorem writeAll_told (files : List (Path × String)) :
    g.writeAll (s.told fs es) files = (g.writeAll s files).told fs es := by
  induction files generalizing s with
  | nil => rfl
  | cons f files ih =>
      have hf : g.writeAll (s.told fs es) (f :: files) =
          g.writeAll ((s.told fs es).writeOnce f.1 f.2 g.config.marker).1 files := rfl
      rw [hf, Pass.writeOnce_told]
      exact ih

theorem finish_told : g.finish (s.told fs es) = ((g.finish s).1.told fs es,
    { (g.finish s).2 with failures := fs ++ (g.finish s).2.failures }) := by
  have hshared : g.shared (s.told fs es) = (g.shared s).told fs es := by
    have hi : (s.told fs es).index = s.index := rfl
    have hb : g.bindingFiles (s.told fs es) = g.bindingFiles s := rfl
    rw [shared, hi, hb, writeAll_told, writeAll_told, shared]
  have hmanifest : g.writeManifest ((g.shared s).told fs es) =
      ((g.writeManifest (g.shared s)).1.told fs es, (g.writeManifest (g.shared s)).2) :=
    Pass.writeOnce_told fs es
  rw [finish_eq, finish_eq, hshared, hmanifest]
  rfl

end

theorem process_congr (hr : ∀ D, source'.read D p = source.read D p)
    (hd : source'.display p = source.display p) (s : Pass) :
    g.process source' s p = g.process source s p := by
  simp only [process, generate, hr, hd]

theorem documents_congr {documents : List Path}
    (hr : ∀ D, ∀ p ∈ documents, source'.read D p = source.read D p)
    (hd : ∀ p ∈ documents, source'.display p = source.display p) (s : Pass) :
    documents.foldlM (g.process source') s = documents.foldlM (g.process source) s := by
  induction documents generalizing s with
  | nil => rfl
  | cons p rest ih =>
      have hp : p ∈ p :: rest := List.mem_cons_self
      rw [List.foldlM_cons, List.foldlM_cons, process_congr (hr · p hp) (hd p hp)]
      cases g.process source s p with
      | ok t =>
          exact ih (fun D q hq => hr D q (List.mem_cons_of_mem p hq))
            (fun q hq => hd q (List.mem_cons_of_mem p hq)) t
      | error t => rfl

/-- Why a document is passed over, with nothing on the disk changed. -/
inductive PassesOver (g : Generator) (source : Source) (s : Pass) (document : Path) : Failure → Prop
  | unread {f : Failure} : source.read s.emitter.disk document = .error f →
      PassesOver g source s document f
  | malformed {bytes : Bytes} {e : Schema.Error} :
      source.read s.emitter.disk document = .ok bytes → Schema.parse bytes = .error e →
      PassesOver g source s document (.schema (source.display document) e)
  | refused {bytes : Bytes} {schema : Schema} {output q : Path} :
      source.read s.emitter.disk document = .ok bytes → Schema.parse bytes = .ok schema →
      g.entityPath? document = some output →
      (s.emitter.emit output (Entity.ofSchema g.config schema output).text
        g.config.marker).result = .error (.overwriteRefused q) →
      PassesOver g source s document (.overwriteRefused q)

theorem process_passesOver (h : g.PassesOver source s p f) : ∃ events, g.process source s p =
    .ok { s with failures := s.failures ++ [f], events := s.events ++ events } := by
  cases h with
  | unread hr => exact ⟨_, by simp only [process, hr]; rfl⟩
  | malformed hr hp => exact ⟨_, by simp only [process, hr, hp]; rfl⟩
  | @refused bytes schema output q hr hp ho he =>
      refine ⟨[.generating (source.display p) output, .failed (.overwriteRefused q)], ?_⟩
      have hem := Emitter.emit_refused he
      have hprocess : g.process source s p = .ok (g.generate s source p schema output) := by
        simp only [process, hr, hp, ho]
      rw [hprocess, generate_failed he]
      simp only [Pass.emit, announced, Pass.log, Pass.fail, hem, List.append_nil, List.append_assoc,
        List.singleton_append]

end Generator

/-- The second source has the document `p` besides those of the first, and answers alike for these. -/
structure Source.Adds (source source' : Source) (d : Disk) (before : List Path) (p : Path)
    (after : List Path) : Prop where
  paths : source.paths d = .ok (before ++ after)
  added : source'.paths d = .ok (before ++ p :: after)
  read : ∀ D, ∀ q ∈ before ++ after, source'.read D q = source.read D q
  display : ∀ q ∈ before ++ after, source'.display q = source.display q

/-- The second run leaves what the first one left and reports the same, but for one failure more, which
comes right after the failures `fs`. -/
structure Ran.FailsOnceMore (first second : Ran) (fs : List Failure) (f : Failure) : Prop where
  disk : second.disk = first.disk
  outcome : (first.outcome = .crashed ∧ second.outcome = .crashed) ∨
    ∃ (r : Report) (later : List Failure), first.outcome = .finished { r with failures := fs ++ later } ∧
      second.outcome = .finished { r with failures := fs ++ f :: later }

namespace Generator

variable {g : Generator} {source source' : Source} {d : Disk} {s : Pass} {before after : List Path}
  {p : Path} {f : Failure}

/-- Both runs go on in one way from the document, with more or less told before. -/
theorem documents_passedOver (h : source.Adds source' d before p after)
    (hs : before.foldlM (g.process source') (g.begin d) = .ok s) (hp : g.PassesOver source' s p f) :
    ∃ t events, (before ++ after).foldlM (g.process source) (g.begin d) =
        toldEnd s.failures s.events (after.foldlM (g.process source) t) ∧
      (before ++ p :: after).foldlM (g.process source') (g.begin d) =
        toldEnd (s.failures ++ [f]) events (after.foldlM (g.process source) t) := by
  obtain ⟨events, hskip⟩ := process_passesOver hp
  have hbefore : before.foldlM (g.process source) (g.begin d) = .ok s := by
    rw [← hs]
    exact (documents_congr (fun D q hq => h.read D q (List.mem_append_left _ hq))
      (fun q hq => h.display q (List.mem_append_left _ hq)) _).symm
  have hafter : ∀ u, after.foldlM (g.process source') u = after.foldlM (g.process source) u :=
    documents_congr (fun D q hq => h.read D q (List.mem_append_right _ hq))
      (fun q hq => h.display q (List.mem_append_right _ hq))
  let t : Pass := { s with failures := [], events := [] }
  have hwithout : s = t.told s.failures s.events := by simp [t, Pass.told]
  have hwith : { s with failures := s.failures ++ [f], events := s.events ++ events } =
      t.told (s.failures ++ [f]) (s.events ++ events) := by simp [t, Pass.told]
  refine ⟨t, s.events ++ events, ?_, ?_⟩
  · rw [List.foldlM_append, hbefore, ← documents_told, ← hwithout]
    rfl
  · rw [List.foldlM_append, hs, ← documents_told, ← hafter, ← hwith]
    have hcons : (p :: after).foldlM (g.process source') s = after.foldlM (g.process source')
        { s with failures := s.failures ++ [f], events := s.events ++ events } := by
      rw [List.foldlM_cons, hskip]
      rfl
    exact hcons

/-- A document that is passed over has one failure told, after those of the documents before it and
before all others, and changes nothing else. -/
theorem passed_over_inert (hv : g.config.validate = .ok ()) (h : source.Adds source' d before p after)
    (hs : before.foldlM (g.process source') (g.begin d) = .ok s)
    (hp : g.PassesOver source' s p f) :
    (g.run source d).FailsOnceMore (g.run source' d) s.failures f := by
  obtain ⟨t, events, hfirst, hsecond⟩ := documents_passedOver h hs hp
  cases hend : after.foldlM (g.process source) t with
  | error u =>
      rw [hend] at hfirst hsecond
      rw [run_of_error hv h.paths hfirst, run_of_error hv h.added hsecond]
      exact ⟨rfl, .inl ⟨rfl, rfl⟩⟩
  | ok u =>
      rw [hend] at hfirst hsecond
      rw [run_of_ok hv h.paths hfirst, run_of_ok hv h.added hsecond, finish_told, finish_told]
      refine ⟨rfl, .inr ⟨(g.finish u).2, (g.finish u).2.failures, rfl, ?_⟩⟩
      rw [List.append_assoc, List.singleton_append]

def handDocument : Bytes := encode "\x7b\"name\":\"Hand\"\x7d"

def twoDocuments : Source := .inMemory [("gone.json", none), ("a.json", some handDocument)]

def threeDocuments : Source :=
  .inMemory [("gone.json", none), ("hand.json", some handDocument), ("a.json", some handDocument)]

def plainOutput : Generator := ⟨{}, "out"⟩

theorem threeDocuments_adds :
    twoDocuments.Adds threeDocuments beside ["gone.json"] "hand.json" ["a.json"] where
  paths := rfl
  added := rfl
  read D q hq := by
    rcases List.mem_cons.1 hq with rfl | hq
    · rfl
    · rcases List.mem_singleton.1 hq with rfl
      rfl
  display _ _ := rfl

def afterGone : Pass := (plainOutput.begin beside).fail (.io "gone.json" .notInMemory)

theorem gone_fails : [("gone.json" : Path)].foldlM (plainOutput.process threeDocuments)
    (plainOutput.begin beside) = .ok afterGone := rfl

theorem hand_refused : plainOutput.PassesOver threeDocuments afterGone "hand.json"
    (.overwriteRefused "out/hand.hpp") := by
  have hschema : Schema.parse handDocument = .ok { name := "Hand" } := by decide +kernel
  have hpath : plainOutput.entityPath? "hand.json" = some "out/hand.hpp" := by decide +kernel
  have hguard : overwritable afterGone.emitter.disk "out/hand.hpp" plainOutput.config.marker =
      .ok false := by decide +kernel
  refine .refused rfl hschema hpath ?_
  simp only [Emitter.emit, hguard]

theorem hand_inert : plainOutput.config.validate = .ok () ∧
    twoDocuments.Adds threeDocuments beside ["gone.json"] "hand.json" ["a.json"] ∧
    plainOutput.PassesOver threeDocuments afterGone "hand.json" (.overwriteRefused "out/hand.hpp") ∧
    (plainOutput.run twoDocuments beside).FailsOnceMore (plainOutput.run threeDocuments beside)
      [.io "gone.json" .notInMemory] (.overwriteRefused "out/hand.hpp") := by
  have hv : plainOutput.config.validate = .ok () := by decide +kernel
  exact ⟨hv, threeDocuments_adds, hand_refused,
    passed_over_inert hv threeDocuments_adds gone_fails hand_refused⟩

end Generator

end EntityGen
