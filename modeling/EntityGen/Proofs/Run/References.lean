import EntityGen.Proofs.Run.Ledger

namespace EntityGen

open EntityGen.Path (Level Stays)
open Text.Utf8 (Bytes encode)

namespace Generator

variable {g : Generator} {source : Source} {d D D' : Disk} {s t : Pass} {p q : Path}
  {hs : List Heading} {documents : List Path}

def headerText (g : Generator) (h : Heading) : String := (Entity.ofSchema g.config h.schema h.output).text

/-- The last of the headers at a path. -/
def latest (hs : List Heading) (p : Path) : Option Heading := (hs.filter (·.output ≈ p)).getLast?

theorem latest_concat (hs : List Heading) (k : Heading) (p : Path) :
    latest (hs ++ [k]) p = if k.output ≈ p then some k else latest hs p := by
  simp only [latest, List.filter_append]
  split
  next h => simp only [List.filter_cons, h, decide_true, if_true, List.filter_nil, List.getLast?_concat]
  next h =>
    simp only [List.filter_cons, h, decide_false, Bool.false_eq_true, if_false, List.filter_nil,
      List.append_nil]

theorem latest_equiv {k : Heading} (h : latest hs p = some k) : k ∈ hs ∧ k.output ≈ p := by
  obtain ⟨hk, he⟩ := List.mem_filter.1 (List.mem_of_getLast? h)
  exact ⟨hk, of_decide_eq_true he⟩

/-- The path of each header leads to the text of the last header there. -/
def Shelved (g : Generator) (hs : List Heading) (D : Disk) : Prop :=
  ∀ h ∈ hs, ∃ l k, D.locate h.output = .ok l ∧ latest hs h.output = some k ∧
    D.node? l = some (.file (encode (g.headerText k)))

theorem Shelved.furnish (h : g.Shelved hs D) (hf : D.Furnishes D') : g.Shelved hs D' := by
  intro k hk
  obtain ⟨l, k', hl, hlast, hn⟩ := h k hk
  exact ⟨l, k', hf.grows.locate_ok hl, hlast, hf.keep hn⟩

/-- One more header takes the place of those that have its path, and of no other. -/
theorem Shelved.emit {e : Emitter} {k : Heading} {marker : String} (h : g.Shelved hs e.disk)
    (hstays : ∀ h ∈ hs, Stays g.output h.output) (hk : Stays g.output k.output) (ht : e.disk.IsTree)
    (hm : marker ≠ "") (hok : (e.emit k.output (g.headerText k) marker).result = .ok ()) :
    g.Shelved (hs ++ [k]) (e.emit k.output (g.headerText k) marker).emitter.disk := by
  obtain ⟨l, hl, hn, hother⟩ := Emitter.emit_plain ht hm hk.plain hok
  intro h' hh'
  rw [latest_concat]
  rcases List.mem_append.1 hh' with hh | hh
  · obtain ⟨l', k', hl', hlast, hn'⟩ := h h' hh
    have hl' := (Emitter.emit_grows e k.output (g.headerText k) marker).locate_ok hl'
    split
    next he =>
      cases Disk.place_of_equiv he hl hl'
      exact ⟨l, k, hl', rfl, hn⟩
    next he =>
      have hne : l' ≠ l := by
        rintro rfl
        exact he (hk.equiv_of_place (hstays h' hh) hl hl')
      refine ⟨l', k', hl', hlast, ?_⟩
      rcases hother l' hne with hkeep | ⟨hnone, -⟩
      · exact hkeep.trans hn'
      · rw [hn'] at hnone
        cases hnone
  · cases List.mem_singleton.1 hh
    rw [if_pos (Setoid.refl _)]
    exact ⟨l, k, hl, rfl, hn⟩

theorem process_shelved (hr : g.Reaches source d ⟨.documents (p :: documents), s⟩) (hp : g.Plain source d)
    (ht : d.IsTree) (ha : g.Accounts hs s) (h : g.Shelved hs s.emitter.disk)
    (hprocess : g.process source s p = .ok t) :
    g.Shelved (hs ++ (g.heading? source s p).toList) t.emitter.disk := by
  have hstays : ∀ h ∈ hs, Stays g.output h.output := fun h hh => hr.wrote_stays hp (ha.wrote h hh)
  rcases process_cases hprocess with
    ⟨f, hf, rfl⟩ | ⟨bytes, e, hb, he, rfl⟩ | ⟨bytes, schema, output, hb, hschema, ho, rfl⟩
  · have hnone : g.heading? source s p = none := by simp only [heading?, hf]
    rw [hnone, Option.toList_none, List.append_nil]
    exact h
  · have hnone : g.heading? source s p = none := by simp only [heading?, hb, he]
    rw [hnone, Option.toList_none, List.append_nil]
    exact h
  · have hturn : g.Turn source ⟨.documents (p :: documents), s⟩ output
      (Entity.ofSchema g.config schema output).text g.config.marker := .header hb hschema ho
    rw [generate_emitter]
    simp only [heading?, hb, hschema, ho]
    cases hemit : (s.emitter.emit output (Entity.ofSchema g.config schema output).text
        g.config.marker).result with
    | error f =>
        rw [Option.toList_none, List.append_nil]
        exact h.furnish (Emitter.emit_failed hemit).1
    | ok u =>
        have hk : Stays g.output (⟨p, schema, output⟩ : Heading).output := hr.turn_stays hp hturn hemit
        exact h.emit hstays hk (hr.isTree ht) (Config.marker_ne hr.valid) hemit

theorem documents_shelved (hr : g.Reaches source d ⟨.documents documents, s⟩) (hp : g.Plain source d)
    (ht : d.IsTree) (ha : g.Accounts hs s) (h : g.Shelved hs s.emitter.disk)
    (hdocuments : documents.foldlM (g.process source) s = .ok t) :
    g.Shelved (hs ++ g.headed source s documents) t.emitter.disk := by
  induction documents generalizing s hs with
  | nil =>
      cases hdocuments
      simpa [headed] using h
  | cons p rest ih =>
      rw [List.foldlM_cons] at hdocuments
      cases hprocess : g.process source s p with
      | error u =>
          rw [hprocess] at hdocuments
          cases hdocuments
      | ok s' =>
          rw [hprocess] at hdocuments
          have := ih (hr.step (.document hprocess)) (process_accounts ha hprocess)
            (process_shelved hr hp ht ha h hprocess) hdocuments
          simpa only [headed, hprocess, List.append_assoc] using this

theorem last_shelved (hr : g.Reaches source d ⟨.documents [], s⟩) (hp : g.Plain source d)
    (ha : g.Accounts hs s) (h : g.Shelved hs s.emitter.disk) :
    g.Shelved hs (g.last s).pass.emitter.disk := by
  intro k hk
  obtain ⟨l, k', hl, hlast, hn⟩ := h k hk
  have hlistings := hr.step .listings
  have hleads := hlistings.leads hr.last (.inl rfl)
  exact ⟨l, k', (Leads.grows hleads).locate_ok hl, hlast,
    hlistings.lasts hp (finishing_listings _) (ha.wrote k hk) hl hn hleads⟩

/-- All that the other files of a run name comes from these headers. -/
structure Names (g : Generator) (hs : List Heading) (s : Pass) : Prop where
  lists : ∀ T n es, (n, es) ∈ s.index.listsOf T → ∀ e ∈ es, ∃ h ∈ hs, ∃ x ∈ h.schema.xlists,
    h.schema.name = e ∧ x.list = n ∧ g.directed h.document x.target ≈ T
  includes : ∀ T, ∀ i ∈ s.index.includesOf T, ∃ h ∈ hs, ∃ t ∈ h.schema.includeIn,
    h.output.includeText = i ∧ g.directed h.document t ≈ T
  bindings : ∀ e ∈ s.bindings.entries, ∃ h ∈ hs,
    (⟨.ofSchema h.schema g.config.bindingClassSuffix, h.output.includeText⟩ : Binding.Entry) = e

theorem documents_named (hv : g.config.validate = .ok ()) (hd : source.paths d = .ok documents)
    (hs : documents.foldlM (g.process source) (g.begin d) = .ok s) :
    g.Names (g.headed source (g.begin d) documents) s := by
  have hr : g.Reaches source d ⟨.documents [], s⟩ := ⟨hv, documents, hd, Leads.documents.1 s hs⟩
  have ha := hr.accounts hd (.inr rfl)
  refine ⟨fun T n es hes e he => ?_, fun T i hi => ?_, fun e he => ?_⟩
  · rw [ha.index.lists] at hes
    obtain ⟨t, hm, ht⟩ := Listing.Index.mem_directed_snd (Listing.mem_grouped hes he)
    obtain ⟨h, hh, hm⟩ := List.mem_flatMap.1 hm
    obtain ⟨x, hx, heq⟩ := List.mem_map.1 hm
    cases heq
    exact ⟨h, hh, x, hx, rfl, rfl, ht⟩
  · rw [ha.index.includes, List.mem_eraseDups] at hi
    obtain ⟨t, hm, ht⟩ := Listing.Index.mem_directed_snd hi
    obtain ⟨h, hh, hm⟩ := List.mem_flatMap.1 hm
    obtain ⟨u, hu, heq⟩ := List.mem_map.1 hm
    cases heq
    exact ⟨h, hh, u, hu, rfl, ht⟩
  · obtain ⟨b, hb⟩ := documents_settle hv hd hs
    cases hs.symm.trans b.passed
    rw [hb.registered] at he
    obtain ⟨h, hbound, rfl⟩ := List.mem_map.1 he
    obtain ⟨fate, hfate, hh⟩ := List.mem_filterMap.1 hbound
    refine ⟨h, b.fared.headings ▸ List.mem_filterMap.2 ⟨fate, hfate, ?_⟩, rfl⟩
    cases fate <;> simp_all

theorem run_shelved (hp : g.Plain source d) (ht : d.IsTree) (hd : source.paths d = .ok documents)
    {r : Report} (hr : (g.run source d).outcome = .finished r) :
    g.Shelved (g.headed source (g.begin d) documents) (g.run source d).disk := by
  obtain ⟨s, hv, hs, -, hdisk⟩ := finished_documents hd hr
  have hstart : g.Reaches source d ⟨.documents documents, g.begin d⟩ := ⟨hv, documents, hd, .refl⟩
  have hend := hstart.of_leads (Leads.documents.1 s hs)
  have hnone : g.Accounts [] (g.begin d) := ⟨.start, rfl, by simp⟩
  have hshelved := documents_shelved hstart hp ht hnone (by simp [Shelved]) hs
  rw [hdisk]
  exact last_shelved hend hp (hend.accounts hd (.inr rfl)) hshelved

/-- Every name in another file comes from a document whose header was written, and its header has its own
text at the end if and only if the last header at its path has that text: of several documents with one
header path, the last one has it, and the other files name all of them. -/
theorem references_hold (g : Generator) (source : Source) (d : Disk) (hp : g.Plain source d) (ht : d.IsTree)
    (hd : source.paths d = .ok documents) {r : Report} (hr : (g.run source d).outcome = .finished r) :
    ∃ s, g.Reaches source d ⟨.documents [], s⟩ ∧ r = (g.finish s).2 ∧
      g.Names (g.headed source (g.begin d) documents) s ∧
      ∀ h ∈ g.headed source (g.begin d) documents,
        ∃ k, latest (g.headed source (g.begin d) documents) h.output = some k ∧
          ((g.run source d).disk.read h.output = .ok (encode (g.headerText h)) ↔
            g.headerText k = g.headerText h) := by
  obtain ⟨s, hv, hs, he, -⟩ := finished_documents hd hr
  refine ⟨s, ⟨hv, documents, hd, Leads.documents.1 s hs⟩, he, documents_named hv hd hs, fun h hh => ?_⟩
  obtain ⟨l, k, hl, hk, hn⟩ := run_shelved hp ht hd hr h hh
  refine ⟨k, hk, ?_⟩
  rw [Disk.read, Disk.find_ok.2 ⟨l, hl, hn⟩, Except.ok.injEq, encode_inj]

def firstText : Bytes := encode "\x7b\"name\":\"First\",\"xlisted\":[[\"ALL\",\"all.hpp\"]]\x7d"

def secondText : Bytes := encode "\x7b\"name\":\"Second\"\x7d"

def firstHeading : Heading := ⟨"A.json", { name := "First", xlists := [⟨"ALL", "all.hpp"⟩] }, "out/A.hpp"⟩

def secondHeading : Heading := ⟨"A.txt", { name := "Second" }, "out/A.hpp"⟩

def doubled : Source := .inMemory [("A.json", some firstText), ("A.txt", some secondText)]

theorem parse_firstText : Schema.parse firstText = .ok firstHeading.schema := by decide +kernel

theorem parse_secondText : Schema.parse secondText = .ok secondHeading.schema := by decide +kernel

theorem doubled_plain : defaults.Plain doubled bare := by
  refine defaults_plain_of (by decide) ?_
  simp only [List.forall_mem_cons]
  exact ⟨⟨_, _, rfl, parse_firstText, by decide⟩, ⟨_, _, rfl, parse_secondText, by decide⟩, by simp⟩

theorem doubled_headed :
    defaults.headed doubled (defaults.begin bare) ["A.json", "A.txt"] = [firstHeading, secondHeading] := by
  decide +kernel

def doubledReport : Report where
  generated := ["out/A.hpp", "out/all.hpp", "out/chai_bindings.hpp", "out/chai_bindings.cpp"]
  manifest := some "out/CMakeLists.txt"
  entities := 2
  failures := []

theorem doubled_run : (defaults.run doubled bare).outcome = .finished doubledReport ∧
    (defaults.run doubled bare).disk.read "out/all.hpp" =
      .ok (encode (Listing.fileText [] [("ALL", ["First"])] defaults.config.marker)) ∧
    (defaults.run doubled bare).disk.read "out/A.hpp" =
      .ok (encode (defaults.headerText secondHeading)) := by
  decide +kernel

theorem doubled_latest : latest [firstHeading, secondHeading] "out/A.hpp" = some secondHeading := by
  decide +kernel

theorem second_apart : defaults.headerText secondHeading ≠ defaults.headerText firstHeading := by
  decide +kernel

/-- The list names the first entity, and its header is the second one's. -/
theorem reference_lost : (defaults.run doubled bare).outcome = .finished doubledReport ∧
    (defaults.run doubled bare).disk.read "out/all.hpp" =
      .ok (encode (Listing.fileText [] [("ALL", ["First"])] defaults.config.marker)) ∧
    (defaults.run doubled bare).disk.read firstHeading.output ≠
      .ok (encode (defaults.headerText firstHeading)) := by
  obtain ⟨houtcome, hlist, hheader⟩ := doubled_run
  refine ⟨houtcome, hlist, fun h => second_apart ?_⟩
  exact encode_inj.1 (Except.ok.inj (hheader.symm.trans h))

theorem doubled_references : (defaults.Plain doubled bare ∧ bare.IsTree ∧
      doubled.paths bare = .ok ["A.json", "A.txt"] ∧ (defaults.run doubled bare).outcome = .finished doubledReport) ∧
    (defaults.run doubled bare).disk.read secondHeading.output =
      .ok (encode (defaults.headerText secondHeading)) ∧
    (defaults.run doubled bare).disk.read firstHeading.output ≠
      .ok (encode (defaults.headerText firstHeading)) := by
  have ht : bare.IsTree := by decide
  have hd : doubled.paths bare = .ok ["A.json", "A.txt"] := rfl
  obtain ⟨s, -, -, -, hall⟩ := references_hold defaults doubled bare doubled_plain ht hd doubled_run.1
  rw [doubled_headed] at hall
  obtain ⟨k, hk, hfirst⟩ := hall firstHeading (by simp)
  obtain ⟨k', hk', hsecond⟩ := hall secondHeading (by simp)
  cases hk.symm.trans doubled_latest
  cases hk'.symm.trans doubled_latest
  exact ⟨⟨doubled_plain, ht, hd, doubled_run.1⟩, hsecond.2 rfl, fun hread => second_apart (hfirst.1 hread)⟩

end Generator

end EntityGen
