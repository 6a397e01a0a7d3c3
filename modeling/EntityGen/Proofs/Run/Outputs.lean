import EntityGen.Proofs.Listing.Grouping
import EntityGen.Proofs.Run.Course
import EntityGen.Proofs.Spelling

namespace EntityGen

/-- What a schema directs to other files. -/
def Schema.targets (schema : Schema) : List String :=
  schema.xlists.map XListDirective.target ++ schema.includeIn

/-- A document whose header is written. -/
structure Heading where
  document : Path
  schema : Schema
  output : Path
  deriving DecidableEq

namespace Generator

variable {g : Generator} {source : Source} {d : Disk} {s s' : Pass} {c c' : Stage} {p q : Path}

def directed (g : Generator) (document : Path) (t : String) : Path :=
  g.directiveDirectory document / (t : Path)

def entries (g : Generator) (h : Heading) : List (Path × String × String) :=
  h.schema.xlists.map fun x => (g.directed h.document x.target, x.list, h.schema.name)

def inclusions (g : Generator) (h : Heading) : List (Path × String) :=
  h.schema.includeIn.map fun t => (g.directed h.document t, h.output.includeText)

def heading? (g : Generator) (source : Source) (s : Pass) (document : Path) : Option Heading :=
  match source.read s.emitter.disk document with
  | .error _ => none
  | .ok bytes =>
    match Schema.parse bytes, g.entityPath? document with
    | .ok schema, some output =>
      match (s.emitter.emit output (Entity.ofSchema g.config schema output).text
        g.config.marker).result with
      | .ok () => some ⟨document, schema, output⟩
      | .error _ => none
    | _, _ => none

def headed (g : Generator) (source : Source) : Pass → List Path → List Heading
  | _, [] => []
  | s, p :: rest =>
    match g.process source s p with
    | .error _ => []
    | .ok s' => (g.heading? source s p).toList ++ headed g source s' rest

theorem heading?_eq_some {h : Heading} (hh : g.heading? source s p = some h) : h.document = p ∧
    (∃ bytes, source.read s.emitter.disk p = .ok bytes ∧ Schema.parse bytes = .ok h.schema) ∧
      g.entityPath? p = some h.output ∧
      (s.emitter.emit h.output (Entity.ofSchema g.config h.schema h.output).text
        g.config.marker).result = .ok () := by
  simp only [heading?] at hh
  split at hh
  · cases hh
  next bytes hb =>
    split at hh
    next schema output hs ho =>
      split at hh
      next hr =>
        cases hh
        exact ⟨rfl, ⟨bytes, hb, hs⟩, ho, hr⟩
      · cases hh
    · cases hh

theorem headed_documents (g : Generator) (source : Source) (s : Pass) (documents : List Path) :
    ((g.headed source s documents).map Heading.document).Sublist documents := by
  induction documents generalizing s with
  | nil => exact .slnil
  | cons p rest ih =>
      rw [headed]
      split
      · exact List.nil_sublist _
      next s' _ =>
        cases hh : g.heading? source s p with
        | none => exact (ih s').cons p
        | some h =>
            rw [Option.toList_some, List.singleton_append, List.map_cons, (heading?_eq_some hh).1]
            exact (ih s').cons_cons p

@[simp] theorem count_index (s : Pass) (e : Entity) (p : Path) : (s.count e p).index = s.index := by
  simp only [Pass.count]
  split <;> rfl

@[simp] theorem bind_index (s : Pass) (e : Entity) (schema : Schema) :
    (s.bind e schema).index = s.index := by
  simp only [Pass.bind]
  split
  · split <;> rfl
  · rfl

@[simp] theorem count_entities (s : Pass) (e : Entity) (p : Path) :
    (s.count e p).entities = s.entities + 1 := by
  simp only [Pass.count]
  split <;> rfl

@[simp] theorem bind_entities (s : Pass) (e : Entity) (schema : Schema) :
    (s.bind e schema).entities = s.entities := by
  simp only [Pass.bind]
  split
  · split <;> rfl
  · rfl

/-- What was counted and collected comes from these documents. -/
structure Accounts (g : Generator) (hs : List Heading) (s : Pass) : Prop where
  index : s.index.Gathers (hs.flatMap g.entries) (hs.flatMap g.inclusions)
  entities : s.entities = hs.length
  wrote : ∀ h ∈ hs, h.output ∈ s.wrote

theorem collect_gathers {es : List (Path × String × String)} {is : List (Path × String)}
    (h : s.index.Gathers es is) (document : Path) (schema : Schema) (output : Path) :
    (s.collect (Entity.ofSchema g.config schema output) (g.directiveDirectory document)).index.Gathers
      (es ++ g.entries ⟨document, schema, output⟩)
      (is ++ g.inclusions ⟨document, schema, output⟩) := by
  have hx := (h.addEntries (g.entries ⟨document, schema, output⟩)).addIncludes
    (g.inclusions ⟨document, schema, output⟩)
  simp only [entries, inclusions, List.foldl_map] at hx
  exact hx

theorem generate_accounts {hs : List Heading} (ha : g.Accounts hs s) (source : Source) (p : Path)
    (schema : Schema) (output : Path) :
    ((s.emitter.emit output (Entity.ofSchema g.config schema output).text g.config.marker).result =
        .ok () → g.Accounts (hs ++ [⟨p, schema, output⟩]) (g.generate s source p schema output)) ∧
      ∀ f, (s.emitter.emit output (Entity.ofSchema g.config schema output).text
        g.config.marker).result = .error f → g.Accounts hs (g.generate s source p schema output) := by
  have hw := generate_wrote g s source p schema output
  constructor
  · intro hr
    refine ⟨?_, ?_, fun h hh => ?_⟩
    · rw [generate_done hr, bind_index, List.flatMap_append, List.flatMap_append,
        List.flatMap_singleton, List.flatMap_singleton]
      apply collect_gathers
      rw [count_index]
      exact ha.index
    · rw [generate_done hr, bind_entities, List.length_append]
      exact (count_entities _ _ _).trans (congrArg (· + 1) ha.entities)
    · rw [hw]
      rcases List.mem_append.1 hh with hh | hh
      · exact List.mem_append_left _ (ha.wrote h hh)
      · rw [List.mem_singleton.1 hh]
        exact List.mem_append_right _ (mem_wrote_emission.2 ⟨rfl, hr⟩)
  · intro f hr
    refine ⟨?_, ?_, fun h hh => ?_⟩
    · rw [generate_failed hr]
      exact ha.index
    · rw [generate_failed hr]
      exact ha.entities
    · rw [hw]
      exact List.mem_append_left _ (ha.wrote h hh)

theorem process_accounts {hs : List Heading} (ha : g.Accounts hs s)
    (hp : g.process source s p = .ok s') :
    g.Accounts (hs ++ (g.heading? source s p).toList) s' := by
  rcases process_cases hp with
    ⟨f, hf, rfl⟩ | ⟨bytes, e, hb, he, rfl⟩ | ⟨bytes, schema, output, hb, hs, ho, rfl⟩
  · have hnone : g.heading? source s p = none := by simp only [heading?, hf]
    rw [hnone, Option.toList_none, List.append_nil]
    exact ⟨ha.index, ha.entities, fail_wrote s f ▸ ha.wrote⟩
  · have hnone : g.heading? source s p = none := by simp only [heading?, hb, he]
    rw [hnone, Option.toList_none, List.append_nil]
    exact ⟨ha.index, ha.entities, fail_wrote s _ ▸ ha.wrote⟩
  · obtain ⟨hok, herror⟩ := generate_accounts ha source p schema output
    simp only [heading?, hb, hs, ho]
    cases hr : (s.emitter.emit output (Entity.ofSchema g.config schema output).text
        g.config.marker).result with
    | error f =>
        rw [Option.toList_none, List.append_nil]
        exact herror f hr
    | ok u => exact hok hr

def Accounted (g : Generator) (source : Source) (all : List Heading) : Stage → Prop
  | ⟨.documents rest, s⟩ => ∃ hs, all = hs ++ g.headed source s rest ∧ g.Accounts hs s
  | ⟨_, s⟩ => g.Accounts all s

theorem writeOnce_accounts {hs : List Heading} (ha : g.Accounts hs s) (p : Path)
    (text marker : String) : g.Accounts hs (s.writeOnce p text marker).1 where
  index := by rw [writeOnce_index]; exact ha.index
  entities := by rw [writeOnce_entities]; exact ha.entities
  wrote h hh := by
    rw [writeOnce_wrote]
    split
    · exact ha.wrote h hh
    · exact List.mem_append_left _ (ha.wrote h hh)

theorem Step.accounted {all : List Heading} (h : g.Step source c c')
    (hc : g.Accounted source all c) : g.Accounted source all c' := by
  cases h with
  | document hp =>
      obtain ⟨hs, hall, ha⟩ := hc
      refine ⟨_, ?_, process_accounts ha hp⟩
      rw [hall, headed, hp, List.append_assoc]
  | listings =>
      obtain ⟨hs, hall, ha⟩ := hc
      rw [headed, List.append_nil] at hall
      exact hall ▸ ha
  | bindings => exact hc
  | listing | binding | manifest => exact writeOnce_accounts hc _ _ _

theorem Reaches.accounted (h : g.Reaches source d c) : ∃ documents,
    source.paths d = .ok documents ∧
      g.Accounted source (g.headed source (g.begin d) documents) c := by
  obtain ⟨documents, hd, hc⟩ := h.course
  refine ⟨documents, hd, ?_⟩
  clear h
  induction hc with
  | refl => exact ⟨[], rfl, .start, rfl, by simp⟩
  | tail _ hs ih => exact hs.accounted ih

/-- The run reads a document, and it is a schema. -/
def Takes (g : Generator) (source : Source) (d : Disk) (document : Path) (schema : Schema) : Prop :=
  ∃ rest s bytes, g.Reaches source d ⟨.documents (document :: rest), s⟩ ∧
    source.read s.emitter.disk document = .ok bytes ∧ Schema.parse bytes = .ok schema

/-- The paths of a run, but for the manifest's. -/
inductive Output (g : Generator) (source : Source) (d : Disk) : Path → Prop
  | header {document : Path} {schema : Schema} {p : Path} : g.Takes source d document schema →
      g.entityPath? document = some p → Output g source d p
  | listing {document : Path} {schema : Schema} {t : String} {p : Path} :
      g.Takes source d document schema → t ∈ schema.targets → p ≈ g.directed document t →
      Output g source d p
  | bindingHeader : Output g source d (g.output / (g.config.bindingHeader : Path))
  | bindingSource : Output g source d (g.output / (g.config.bindingSource : Path))

theorem Reaches.takes {rest : List Path} (h : g.Reaches source d ⟨.documents rest, s⟩) :
    ∀ k ∈ g.headed source s rest, g.Takes source d k.document k.schema ∧
      g.entityPath? k.document = some k.output := by
  induction rest generalizing s with
  | nil => simp [headed]
  | cons p rest ih =>
      intro k hk
      rw [headed] at hk
      split at hk
      · cases hk
      next s' hp =>
        rcases List.mem_append.1 hk with hk | hk
        · rw [Option.mem_toList] at hk
          obtain ⟨rfl, ⟨bytes, hb, hs⟩, ho, -⟩ := heading?_eq_some hk
          exact ⟨⟨rest, s, bytes, h, hb, hs⟩, ho⟩
        · exact ih (h.step (.document hp)) k hk

theorem mem_targets {h : Heading} {t : Path} (ht : t ∈ (g.entries h).map Prod.fst ∨
    t ∈ (g.inclusions h).map Prod.fst) : ∃ u ∈ h.schema.targets, t = g.directed h.document u := by
  simp only [entries, inclusions, List.map_map, List.mem_map, Function.comp_apply] at ht
  rcases ht with ⟨x, hx, rfl⟩ | ⟨u, hu, rfl⟩
  · exact ⟨_, List.mem_append_left _ (List.mem_map_of_mem hx), rfl⟩
  · exact ⟨u, List.mem_append_right _ hu, rfl⟩

theorem Accounts.targets {hs : List Heading} (ha : g.Accounts hs s) {t : Path}
    (ht : t ∈ s.index.targets) :
    ∃ h ∈ hs, ∃ u ∈ h.schema.targets, t ≈ g.directed h.document u := by
  obtain ⟨t', ht', he⟩ := (ha.index.targets.2 t).1 ⟨t, ht, Setoid.refl t⟩
  have hmem : ∃ h ∈ hs, t' ∈ (g.entries h).map Prod.fst ∨ t' ∈ (g.inclusions h).map Prod.fst := by
    simp only [List.map_flatMap, List.mem_flatMap] at ht'
    rcases ht' with ⟨h, hh, hm⟩ | ⟨h, hh, hm⟩
    · exact ⟨h, hh, .inl hm⟩
    · exact ⟨h, hh, .inr hm⟩
  obtain ⟨h, hh, hm⟩ := hmem
  obtain ⟨u, hu, rfl⟩ := mem_targets hm
  exact ⟨h, hh, u, hu, Setoid.symm he⟩

theorem Accounted.whole {all : List Heading} (ha : g.Accounted source all c)
    (h : Finishing c.phase ∨ c.phase = .documents []) : g.Accounts all c.pass := by
  obtain ⟨phase, s⟩ := c
  cases phase with
  | documents rest =>
      rcases h with h | h
      · exact absurd rfl (h rest)
      · cases h
        obtain ⟨hs, hall, ha⟩ := ha
        rw [headed, List.append_nil] at hall
        exact hall ▸ ha
  | listings | bindings | done => exact ha

theorem Reaches.accounts {documents : List Path} (h : g.Reaches source d c)
    (hd : source.paths d = .ok documents) (hc : Finishing c.phase ∨ c.phase = .documents []) :
    g.Accounts (g.headed source (g.begin d) documents) c.pass := by
  obtain ⟨documents', hd', ha⟩ := h.accounted
  cases hd.symm.trans hd'
  exact ha.whole hc

theorem Accounted.from {all : List Heading} (ha : g.Accounted source all c) :
    ∃ hs, (∀ h ∈ hs, h ∈ all) ∧ g.Accounts hs c.pass := by
  obtain ⟨phase, s⟩ := c
  cases phase with
  | documents rest =>
      obtain ⟨hs, hall, ha⟩ := ha
      exact ⟨hs, fun h hh => hall ▸ List.mem_append_left _ hh, ha⟩
  | listings | bindings | done => exact ⟨all, fun _ hh => hh, ha⟩

theorem Reaches.listed (h : g.Reaches source d c) {t : Path} (ht : t ∈ c.pass.index.targets) :
    ∃ document schema u, g.Takes source d document schema ∧ u ∈ schema.targets ∧
      t ≈ g.directed document u := by
  obtain ⟨documents, hd, hc⟩ := h.accounted
  obtain ⟨hs, hall, ha⟩ := hc.from
  obtain ⟨k, hk, u, hu, he⟩ := ha.targets ht
  have hr : g.Reaches source d ⟨.documents documents, g.begin d⟩ := ⟨h.valid, documents, hd, .refl⟩
  exact ⟨_, _, u, (hr.takes k (hall k hk)).1, hu, he⟩

theorem Reaches.origin (h : g.Reaches source d c) {p : Path} {text marker : String}
    (ht : g.Turn source c p text marker) : g.Output source d p ∧ c.phase ≠ .bindings [] ∨
      p = g.manifestPath ∧ c.phase = .bindings [] := by
  have hc := h.planned
  cases ht with
  | header hb hs ho =>
      refine .inl ⟨.header ⟨_, _, _, h, hb, hs⟩ ho, fun hc => ?_⟩
      cases hc
  | @listing s p text rest =>
      obtain ⟨t, hm, he⟩ := List.mem_map.1 (hc.subset List.mem_cons_self)
      cases he
      obtain ⟨document, schema, u, htakes, hu, he⟩ := h.listed hm
      refine .inl ⟨.listing htakes hu he, fun hc => ?_⟩
      cases hc
  | binding =>
      have hm := hc.subset List.mem_cons_self
      simp only [bindingFiles, Binding.Registry.files, List.mem_cons, List.not_mem_nil, or_false,
        Prod.mk.injEq] at hm
      refine .inl ⟨?_, fun hc => by cases hc⟩
      rcases hm with ⟨rfl, -⟩ | ⟨rfl, -⟩
      · exact .bindingHeader
      · exact .bindingSource
  | manifest => exact .inr ⟨rfl, rfl⟩

end Generator

end EntityGen
