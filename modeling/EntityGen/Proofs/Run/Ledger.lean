import EntityGen.Proofs.Binding.Registering
import EntityGen.Proofs.Extension
import EntityGen.Proofs.Run.Contents
import EntityGen.Proofs.Run.Inert
import EntityGen.Proofs.Run.Touched

namespace EntityGen

open Text.Utf8 (Bytes)

/-- What became of a document. -/
inductive Fate
  /-- It has no header. -/
  | skipped (f : Failure)
  | headed (h : Heading)
  /-- It has a header, and its entity is in the registry. -/
  | bound (h : Heading)
  /-- It has a header, but the registry does not take its entity. -/
  | unbound (h : Heading) (f : Failure)

namespace Fate

@[simp] def heading? : Fate → Option Heading
  | skipped _ => none
  | headed h | bound h | unbound h _ => some h

@[simp] def failure? : Fate → Option Failure
  | skipped f | unbound _ f => some f
  | headed _ | bound _ => none

@[simp] def bound? : Fate → Option Heading
  | bound h => some h
  | _ => none

@[simp] def isUnbound : Fate → Bool
  | unbound _ _ => true
  | _ => false

theorem balance (fates : List Fate) :
    (fates.filterMap failure?).length + (fates.filterMap heading?).length =
      fates.length + fates.countP isUnbound := by
  induction fates with
  | nil => rfl
  | cons fate fates ih =>
      cases fate with
      | skipped f | headed h | bound h | unbound h f =>
          simp [List.filterMap_cons, List.countP_cons]
          omega

end Fate

/-- From `s` to `t` these came to their fates, and what was written and told is theirs. -/
structure Pass.Books (s : Pass) (fates : List Fate) (t : Pass) : Prop where
  failures : t.failures = s.failures ++ fates.filterMap Fate.failure?
  wrote : t.wrote = s.wrote ++ (fates.filterMap Fate.heading?).map Heading.output
  entries : t.bindings.entries = s.bindings.entries ++
    (fates.filterMap Fate.bound?).map fun h => s.bindings.entry h.schema h.output
  scope : t.bindings.scope = s.bindings.scope
  classSuffix : t.bindings.classSuffix = s.bindings.classSuffix

theorem Pass.Books.refl (s : Pass) : s.Books [] s := ⟨by simp, by simp, by simp, rfl, rfl⟩

theorem Pass.Books.one {s t : Pass} {fate : Fate}
    (hf : t.failures = s.failures ++ fate.failure?.toList)
    (hw : t.wrote = s.wrote ++ fate.heading?.toList.map Heading.output)
    (hb : t.bindings.entries = s.bindings.entries ++
      fate.bound?.toList.map fun h => s.bindings.entry h.schema h.output)
    (hc : t.bindings.scope = s.bindings.scope ∧ t.bindings.classSuffix = s.bindings.classSuffix) :
    s.Books [fate] t := by
  have hsingle : ∀ {α : Type} (f : Fate → Option α), [fate].filterMap f = (f fate).toList := by
    intro α f
    cases hfate : f fate <;> simp [hfate]
  refine ⟨?_, ?_, ?_, hc.1, hc.2⟩
  · rw [hsingle, hf]
  · rw [hsingle, hw]
  · rw [hsingle, hb]

theorem Pass.Books.trans {s t u : Pass} {fates fates' : List Fate} (h : s.Books fates t)
    (h' : t.Books fates' u) : s.Books (fates ++ fates') u where
  failures := by rw [h'.failures, h.failures, List.filterMap_append, List.append_assoc]
  wrote := by
    rw [h'.wrote, h.wrote, List.filterMap_append, List.map_append, List.append_assoc]
  entries := by
    rw [h'.entries, h.entries, List.filterMap_append, List.map_append, ← List.append_assoc]
    simp only [Binding.Registry.entry, h.classSuffix]
  scope := h'.scope.trans h.scope
  classSuffix := h'.classSuffix.trans h.classSuffix

namespace Generator

variable {g : Generator} {source : Source} {d : Disk} {s s' t : Pass} {p document : Path}
  {fate : Fate} {fates : List Fate} {documents : List Path} {text marker : String}

inductive Fares (g : Generator) (source : Source) (s : Pass) (document : Path) : Fate → Prop
  | passedOver {f : Failure} : g.PassesOver source s document f →
      Fares g source s document (.skipped f)
  | unwritten {bytes : Bytes} {schema : Schema} {output q : Path} {cause : IoFault} :
      source.read s.emitter.disk document = .ok bytes → Schema.parse bytes = .ok schema →
      g.entityPath? document = some output →
      (s.emitter.emit output (Entity.ofSchema g.config schema output).text g.config.marker).result =
        .error (.io q cause) → Fares g source s document (.skipped (.io q cause))
  | headed {h : Heading} : g.heading? source s document = some h →
      h.schema.wants g.config.bindingFlag = false → Fares g source s document (.headed h)
  | bound {h : Heading} : g.heading? source s document = some h →
      h.schema.wants g.config.bindingFlag = true →
      h.schema.qualifiedName ∉ s.bindings.registered →
      h.schema.bindingFunction ∉ s.bindings.functionNames → Fares g source s document (.bound h)
  | duplicate {h : Heading} : g.heading? source s document = some h →
      h.schema.wants g.config.bindingFlag = true →
      h.schema.qualifiedName ∈ s.bindings.registered →
      Fares g source s document (.unbound h (.duplicateBinding h.schema.qualifiedName h.output))
  | clash {h : Heading} {existing : String} : g.heading? source s document = some h →
      h.schema.wants g.config.bindingFlag = true →
      h.schema.qualifiedName ∉ s.bindings.registered →
      s.bindings.functions.lookup h.schema.bindingFunction = some existing →
      Fares g source s document (.unbound h
        (.bindingNameClash h.schema.bindingFunction h.schema.qualifiedName existing h.output))

theorem Fares.heading (h : g.Fares source s document fate) :
    fate.heading? = g.heading? source s document := by
  cases h with
  | passedOver hp =>
      cases hp with
      | unread hr => simp only [heading?, hr, Fate.heading?]
      | malformed hr hs => simp only [heading?, hr, hs, Fate.heading?]
      | refused hr hs ho he => simp only [heading?, hr, hs, ho, he, Fate.heading?]
  | unwritten hr hs ho he => simp only [heading?, hr, hs, ho, he, Fate.heading?]
  | headed hh | bound hh | duplicate hh | clash hh => exact hh.symm

@[simp] theorem count_failures (s : Pass) (e : Entity) (p : Path) :
    (s.count e p).failures = s.failures := by
  simp only [Pass.count]
  split <;> rfl

@[simp] theorem count_bindings (s : Pass) (e : Entity) (p : Path) :
    (s.count e p).bindings = s.bindings := by
  simp only [Pass.count]
  split <;> rfl

theorem bind_consistent (hc : s.bindings.Consistent) (e : Entity) (schema : Schema) :
    (s.bind e schema).bindings.Consistent := by
  simp only [Pass.bind]
  split
  · cases hr : s.bindings.register schema e.output with
    | error f => exact hc
    | ok r => exact Binding.Registry.register_ok hr ▸ hc.take _ _
  · exact hc

theorem process_consistent (h : g.process source s p = .ok s') (hc : s.bindings.Consistent) :
    s'.bindings.Consistent := by
  rcases process_cases h with
    ⟨f, -, rfl⟩ | ⟨bytes, e, -, -, rfl⟩ | ⟨bytes, schema, output, -, -, -, rfl⟩
  · exact hc
  · exact hc
  · cases hemit : (s.emitter.emit output (Entity.ofSchema g.config schema output).text
        g.config.marker).result with
    | error f =>
        rw [generate_failed hemit]
        exact hc
    | ok u =>
        rw [generate_done hemit]
        refine bind_consistent ?_ _ _
        simpa [Pass.collect, Pass.emit, announced, Pass.log] using hc

theorem bind_books {h : Heading} (hc : s.bindings.Consistent)
    (hs : s'.failures = s.failures ∧ s'.bindings = s.bindings)
    (hw : s'.wrote = s.wrote ++ [h.output]) (hh : g.heading? source s document = some h) :
    ∃ fate, g.Fares source s document fate ∧
      s.Books [fate] (s'.bind (Entity.ofSchema g.config h.schema h.output) h.schema) := by
  obtain ⟨hf, hb⟩ := hs
  have hwants : (Entity.ofSchema g.config h.schema h.output).wantsBindings =
      h.schema.wants g.config.bindingFlag := rfl
  have hpath : (Entity.ofSchema g.config h.schema h.output).output = h.output := rfl
  rw [← bind_wrote s' (Entity.ofSchema g.config h.schema h.output) h.schema] at hw
  simp only [Pass.bind, hwants, hpath, hb] at hw ⊢
  cases hwant : h.schema.wants g.config.bindingFlag with
  | false =>
      simp only [hwant, Bool.false_eq_true, if_false] at hw ⊢
      exact ⟨.headed h, .headed hh hwant, .one (by simp [hf]) hw (by simp [hb]) (by simp [hb])⟩
  | true =>
      simp only [hwant, if_true] at hw ⊢
      rcases Binding.Registry.register_cases hc h.schema h.output with
        ⟨hm, he⟩ | ⟨hm, ⟨existing, hl, he⟩ | ⟨hno, he⟩⟩
      · simp only [he] at hw ⊢
        exact ⟨_, .duplicate hh hwant hm, .one (by simp [Pass.fail, hf]) hw
          (by simp [Pass.fail, hb]) (by simp [Pass.fail, hb])⟩
      · simp only [he] at hw ⊢
        exact ⟨_, .clash hh hwant hm hl, .one (by simp [Pass.fail, hf]) hw
          (by simp [Pass.fail, hb]) (by simp [Pass.fail, hb])⟩
      · simp only [he] at hw ⊢
        exact ⟨.bound h, .bound hh hwant hm hno, .one (by simp [Pass.log, hf]) hw
          (by simp [Pass.log, Binding.Registry.take, Binding.Registry.entry]) ⟨rfl, rfl⟩⟩

theorem process_fares (hc : s.bindings.Consistent) (h : g.process source s p = .ok s') :
    ∃ fate, g.Fares source s p fate ∧ s.Books [fate] s' := by
  rcases process_cases h with
    ⟨f, hr, rfl⟩ | ⟨bytes, e, hr, he, rfl⟩ | ⟨bytes, schema, output, hr, hs, ho, rfl⟩
  · exact ⟨.skipped f, .passedOver (.unread hr), .one rfl (by simp) (by simp [Pass.fail]) ⟨rfl, rfl⟩⟩
  · exact ⟨_, .passedOver (.malformed hr he), .one rfl (by simp) (by simp [Pass.fail]) ⟨rfl, rfl⟩⟩
  · have hw := generate_wrote g s source p schema output
    cases hemit : (s.emitter.emit output (Entity.ofSchema g.config schema output).text
        g.config.marker).result with
    | error f =>
        have hbooks : s.Books [.skipped f] (g.generate s source p schema output) := by
          rw [(Emitter.emit_failed hemit).2.2] at hw
          rw [generate_failed hemit] at hw ⊢
          exact .one rfl hw (by simp [Pass.fail, Pass.emit, announced, Pass.log]) ⟨rfl, rfl⟩
        rcases Emitter.emit_error_cases hemit with ⟨rfl, -⟩ | ⟨q, cause, rfl⟩
        · exact ⟨_, .passedOver (.refused hr hs ho hemit), hbooks⟩
        · exact ⟨_, .unwritten hr hs ho hemit, hbooks⟩
    | ok u =>
        obtain ⟨-, D, D', -, -, hem⟩ := Emitter.emit_done hemit
        have hh : g.heading? source s p = some ⟨p, schema, output⟩ := by
          simp only [heading?, hr, hs, ho, hemit]
        rw [hem] at hw
        rw [generate_done hemit] at hw ⊢
        rw [bind_wrote] at hw
        refine bind_books hc ⟨?_, ?_⟩ hw hh
        · simp [Pass.collect, Pass.emit, announced, Pass.log]
        · simp [Pass.collect, Pass.emit, announced, Pass.log]

/-- What became of the documents, each in the state that those before it led to. -/
inductive Fared (g : Generator) (source : Source) : Pass → List Path → List Fate → Prop
  | nil {s : Pass} : Fared g source s [] []
  | cons {s s' : Pass} {p : Path} {rest : List Path} {fate : Fate} {fates : List Fate} :
      g.Fares source s p fate → g.process source s p = .ok s' → Fared g source s' rest fates →
      Fared g source s (p :: rest) (fate :: fates)

theorem documents_fared (hc : s.bindings.Consistent)
    (h : documents.foldlM (g.process source) s = .ok t) :
    ∃ fates, g.Fared source s documents fates ∧ s.Books fates t := by
  induction documents generalizing s with
  | nil =>
      cases h
      exact ⟨[], .nil, .refl _⟩
  | cons p rest ih =>
      rw [List.foldlM_cons] at h
      cases hp : g.process source s p with
      | error u =>
          rw [hp] at h
          cases h
      | ok s' =>
          rw [hp] at h
          obtain ⟨fate, hfate, hbooks⟩ := process_fares hc hp
          obtain ⟨fates, hfates, hrest⟩ := ih (process_consistent hp hc) h
          exact ⟨fate :: fates, .cons hfate hp hfates, hbooks.trans hrest⟩

theorem Fared.length (h : g.Fared source s documents fates) : fates.length = documents.length := by
  induction h with
  | nil => rfl
  | cons _ _ _ ih => exact congrArg (· + 1) ih

theorem Fared.headings (h : g.Fared source s documents fates) :
    fates.filterMap Fate.heading? = g.headed source s documents := by
  induction h with
  | nil => rfl
  | @cons _ _ _ _ fate _ hfate hp _ ih =>
      simp only [headed, hp, ← ih, ← hfate.heading, List.filterMap_cons]
      cases fate.heading? <;> rfl

/-- What becomes of an output after the last document: it is written, or it fails. -/
inductive Lands (e : Emitter) (p : Path) (text marker : String) : Option Failure → Prop
  | written : e.hasWritten p = false → (e.emit p text marker).result = .ok () →
      Lands e p text marker none
  | conflict : e.hasWritten p = true → Lands e p text marker (some (.outputConflict p))
  | failed {f : Failure} : e.hasWritten p = false → (e.emit p text marker).result = .error f →
      Lands e p text marker (some f)

theorem writeOnce_lands (s : Pass) (p : Path) (text marker : String) : ∃ landing,
    Lands s.emitter p text marker landing ∧
      (s.writeOnce p text marker).1.failures = s.failures ++ landing.toList ∧
      (s.writeOnce p text marker).2 = landing.isNone := by
  rcases writeOnce_cases s p text marker with ⟨hw, he⟩ | ⟨hn, ⟨f, hr, he⟩ | ⟨hr, he⟩⟩
  · exact ⟨_, .conflict hw, by rw [he]; rfl, by rw [he]; rfl⟩
  · exact ⟨_, .failed hn hr, by rw [he]; rfl, by rw [he]; rfl⟩
  · exact ⟨_, .written hn hr, by rw [he]; exact (List.append_nil _).symm, by rw [he]; rfl⟩

inductive Landed (g : Generator) : Pass → List (Path × String) → List (Path × Option Failure) → Prop
  | nil {s : Pass} : Landed g s [] []
  | cons {s : Pass} {p : Path} {text : String} {rest : List (Path × String)}
      {landing : Option Failure} {ends : List (Path × Option Failure)} :
      Lands s.emitter p text g.config.marker landing →
      Landed g (s.writeOnce p text g.config.marker).1 rest ends →
      Landed g s ((p, text) :: rest) ((p, landing) :: ends)

def delivered (ends : List (Path × Option Failure)) : List Path :=
  (ends.filter (·.2.isNone)).map Prod.fst

theorem writeAll_landed (s : Pass) (files : List (Path × String)) : ∃ ends, g.Landed s files ends ∧
    (g.writeAll s files).failures = s.failures ++ ends.filterMap Prod.snd ∧
    (g.writeAll s files).emitter.written = s.emitter.written ++ delivered ends := by
  induction files generalizing s with
  | nil => exact ⟨[], .nil, (List.append_nil _).symm, (List.append_nil _).symm⟩
  | cons f rest ih =>
      obtain ⟨p, text⟩ := f
      obtain ⟨landing, hlands, hfail, hdone⟩ := writeOnce_lands s p text g.config.marker
      obtain ⟨ends, hends, hfails, hwritten⟩ := ih (s.writeOnce p text g.config.marker).1
      refine ⟨(p, landing) :: ends, .cons hlands hends, ?_, ?_⟩
      · refine hfails.trans ?_
        rw [hfail, List.append_assoc]
        cases landing <;> rfl
      · refine hwritten.trans ?_
        rw [writeOnce_written, hdone, List.append_assoc]
        cases landing <;> rfl

theorem Landed.paths {files : List (Path × String)} {ends : List (Path × Option Failure)}
    (h : g.Landed s files ends) : ends.map Prod.fst = files.map Prod.fst := by
  induction h with
  | nil => rfl
  | cons _ _ ih => rw [List.map_cons, List.map_cons, ih]

theorem Accounts.directed {hs : List Heading} (ha : g.Accounts hs s) :
    s.index.targets.Pairwise (fun t t' => ¬ t ≈ t') ∧ ∀ T, (∃ t ∈ s.index.targets, t ≈ T) ↔
      ∃ h ∈ hs, ∃ u ∈ h.schema.targets, g.directed h.document u ≈ T := by
  obtain ⟨hapart, htargets⟩ := ha.index.targets
  refine ⟨hapart, fun T => ⟨?_, ?_⟩⟩
  · rintro ⟨t, ht, he⟩
    obtain ⟨h, hh, u, hu, he'⟩ := ha.targets ht
    exact ⟨h, hh, u, hu, Setoid.trans (Setoid.symm he') he⟩
  · rintro ⟨h, hh, u, hu, he⟩
    exact (htargets T).2 ⟨_, mem_directed hh hu, he⟩

/-- What became of all that a finished run took up. -/
structure Ledger (g : Generator) (source : Source) (d : Disk) (documents : List Path) where
  /-- After the last document. -/
  pass : Pass
  fates : List Fate
  /-- All outputs after the last document, but for the manifest. -/
  ends : List (Path × Option Failure)
  manifest : Option Failure
  passed : documents.foldlM (g.process source) (g.begin d) = .ok pass
  fared : g.Fared source (g.begin d) documents fates
  landed : g.Landed pass (g.sharedFiles pass) ends
  landed_manifest : Lands (g.shared pass).emitter g.manifestPath (g.manifestText (g.shared pass))
    g.config.manifestMarker manifest

namespace Ledger

variable (b : g.Ledger source d documents)

def headings : List Heading := b.fates.filterMap Fate.heading?

/-- How many entities the registry did not take. -/
def rejected : Nat := b.fates.countP Fate.isUnbound

/-- Why outputs after the last document are not there. -/
def unwritten : List Failure := b.ends.filterMap Prod.snd ++ b.manifest.toList

def headers : List Path := Listing.Index.distinct (b.headings.map Heading.output)

/-- The report tells of all this, each once. -/
structure Settles (r : Report) : Prop where
  entities : r.entities = b.headings.length
  failures : r.failures = b.fates.filterMap Fate.failure? ++ b.unwritten
  registered : b.pass.bindings.entries = (b.fates.filterMap Fate.bound?).map fun h =>
    (g.begin d).bindings.entry h.schema h.output
  outputs : b.ends.map Prod.fst = b.pass.index.targets ++
    [g.output / (g.config.bindingHeader : Path), g.output / (g.config.bindingSource : Path)]
  apart : b.pass.index.targets.Pairwise fun t t' => ¬ t ≈ t'
  directed : ∀ T, (∃ t ∈ b.pass.index.targets, t ≈ T) ↔
    ∃ h ∈ b.headings, ∃ u ∈ h.schema.targets, g.directed h.document u ≈ T
  generated : r.generated = b.headers ++ delivered b.ends
  manifest : r.manifest = if b.manifest.isNone then some g.manifestPath else none
  entities_le : r.entities ≤ documents.length
  failure_count : r.failures.length =
    (documents.length - r.entities) + b.rejected + b.unwritten.length
  generated_count : r.generated.length = b.headers.length + (delivered b.ends).length

variable {b}

theorem headings_le : b.headings.length ≤ documents.length := by
  rw [← b.fared.length]
  exact List.length_filterMap_le ..

theorem told_length : (b.fates.filterMap Fate.failure?).length =
    (documents.length - b.headings.length) + b.rejected := by
  have hbalance := Fate.balance b.fates
  have hle := b.headings_le
  have hlength := b.fared.length
  simp only [headings, rejected] at hle ⊢
  omega

end Ledger

theorem shared_eq (g : Generator) (s : Pass) : g.shared s = g.writeAll s (g.sharedFiles s) :=
  (List.foldl_append ..).symm

theorem documents_settle (hv : g.config.validate = .ok ()) (hd : source.paths d = .ok documents)
    (hs : documents.foldlM (g.process source) (g.begin d) = .ok s) :
    ∃ b : g.Ledger source d documents, b.Settles (g.finish s).2 := by
  obtain ⟨fates, hfates, hbooks⟩ := documents_fared (.start _ _) hs
  obtain ⟨ends, hends, hfails, hdelivered⟩ := writeAll_landed s (g.sharedFiles s)
  rw [← shared_eq] at hfails hdelivered
  obtain ⟨manifest, hmanifest, hfail, hdone⟩ := writeOnce_lands (g.shared s) g.manifestPath
    (g.manifestText (g.shared s)) g.config.manifestMarker
  rw [← writeManifest] at hfail hdone
  have hr : g.Reaches source d ⟨.documents [], s⟩ := ⟨hv, documents, hd, Leads.documents.1 s hs⟩
  let b : g.Ledger source d documents := ⟨s, fates, ends, manifest, hs, hfates, hends, hmanifest⟩
  -- The report, part by part.
  have hheaded : g.headed source (g.begin d) documents = b.headings := hfates.headings.symm
  have haccounts : g.Accounts b.headings s := hheaded ▸ hr.accounts hd (.inr rfl)
  have hentities : (g.finish s).2.entities = b.headings.length := by
    rw [finish_eq, ← hheaded]
    exact (hr.last.accounts hd (.inl finishing_done)).entities
  have hfailures : (g.finish s).2.failures = fates.filterMap Fate.failure? ++ b.unwritten := by
    rw [finish_eq]
    refine hfail.trans ?_
    rw [hfails, hbooks.failures, List.append_assoc]
    rfl
  have hgenerated : (g.finish s).2.generated = b.headers ++ delivered ends := by
    rw [finish_eq]
    refine hdelivered.trans ?_
    rw [hr.written, hbooks.wrote]
    rfl
  refine ⟨b, {
    entities := hentities
    failures := hfailures
    registered := ?_
    outputs := ?_
    apart := haccounts.directed.1
    directed := haccounts.directed.2
    generated := hgenerated
    manifest := ?_
    entities_le := hentities ▸ b.headings_le
    failure_count := by rw [hfailures, hentities, List.length_append, ← b.told_length]
    generated_count := by rw [hgenerated, List.length_append] }⟩
  · exact hbooks.entries.trans (List.nil_append _)
  · rw [hends.paths, sharedFiles, List.map_append]
    congr 1
    rw [Listing.Index.files, List.map_map]
    exact List.map_id _
  · rw [finish_eq, hdone]

theorem process_crashed {t : Pass} (h : g.process source s p = .error t) :
    '/' ∈ g.config.outputExt.toList := by
  simp only [process] at h
  split at h
  · cases h
  · split at h
    · cases h
    · split at h
      next hnone => exact Path.withExtension_none hnone
      · cases h

/-- A run that finishes has a fate for each document and an end for each output, and its report tells
of these and nothing else. It finishes unless a header has no path. -/
theorem nothing_dropped (g : Generator) (source : Source) (d : Disk)
    (hv : g.config.validate = .ok ()) (hd : source.paths d = .ok documents) :
    ((g.run source d).outcome = .crashed ∧ '/' ∈ g.config.outputExt.toList) ∨
      ∃ (r : Report) (b : g.Ledger source d documents),
        (g.run source d).outcome = .finished r ∧ b.Settles r := by
  cases hs : documents.foldlM (g.process source) (g.begin d) with
  | error t =>
      obtain ⟨q, rest, -, hq⟩ := Leads.documents.2 t hs
      exact .inl ⟨by rw [run_of_error hv hd hs], process_crashed hq⟩
  | ok s =>
      obtain ⟨b, hb⟩ := documents_settle hv hd hs
      exact .inr ⟨_, b, by rw [run_of_ok hv hd hs], hb⟩

def crowdedText : Bytes := Text.Utf8.encode
  "\x7b\"name\":\"A\",\"generate\":[\"chai_bindings\"],\"xlisted\":[[\"ALL\",\"a.hpp\"]]\x7d"

def crowded : Source :=
  .inMemory [("gone.json", none), ("a.json", some crowdedText), ("b.json", some crowdedText)]

theorem crowded_outcome : (defaults.run crowded bare).outcome = .finished {
    generated := ["out/a.hpp", "out/b.hpp", "out/chai_bindings.hpp", "out/chai_bindings.cpp"]
    manifest := some "out/CMakeLists.txt"
    entities := 2
    failures := [.io "gone.json" .notInMemory, .duplicateBinding "A" "out/b.hpp",
      .outputConflict "out/a.hpp"] } := by decide +kernel

theorem crowded_settled : defaults.config.validate = .ok () ∧
    crowded.paths bare = .ok ["gone.json", "a.json", "b.json"] ∧
    ∃ (r : Report) (b : defaults.Ledger crowded bare ["gone.json", "a.json", "b.json"]),
      (defaults.run crowded bare).outcome = .finished r ∧ b.Settles r ∧
      r.failures.length = 3 ∧ b.headings.length = 2 ∧ b.rejected + b.unwritten.length = 2 := by
  have hv : defaults.config.validate = .ok () := by decide +kernel
  have hext : '/' ∉ defaults.config.outputExt.toList := by decide
  rcases nothing_dropped defaults crowded bare hv rfl with ⟨-, hslash⟩ | ⟨r, b, hr, hb⟩
  · exact absurd hslash hext
  · cases hr.symm.trans crowded_outcome
    have hcount : 3 = (3 - 2) + b.rejected + b.unwritten.length := hb.failure_count
    exact ⟨hv, rfl, _, b, crowded_outcome, hb, rfl, hb.entities.symm, by omega⟩

end Generator

end EntityGen
