import EntityGen.Proofs.Run.SamePlace

namespace EntityGen

open Disk (segments steps)
open EntityGen.Path (Level)
open Text.Utf8 (Bytes encode)

namespace Generator

variable {g : Generator} {source : Source} {d : Disk} {s : Pass} {c c' : Stage} {p T : Path}
  {l : Location}

/-- The listing that the headed documents ask for at a path, however they spell it. -/
def listing (g : Generator) (hs : List Heading) (T : Path) : String :=
  Listing.fileText (((hs.flatMap g.inclusions).filter (·.1 ≈ T)).map Prod.snd).eraseDups
    (Listing.grouped (((hs.flatMap g.entries).filter (·.1 ≈ T)).map Prod.snd)) g.config.marker

theorem Accounts.text {hs : List Heading} (ha : g.Accounts hs s) (T : Path) :
    s.index.text g.config.marker T = g.listing hs T := by
  rw [Listing.Index.text, ha.index.lists, ha.index.includes, listing]

theorem listing_congr (hs : List Heading) (h : p ≈ T) : g.listing hs p = g.listing hs T := by
  have he : ∀ t : Path, decide (t ≈ p) = decide (t ≈ T) := fun t =>
    decide_eq_decide.2 ⟨fun ht => Setoid.trans ht h, fun ht => Setoid.trans ht (Setoid.symm h)⟩
  simp only [listing, he]

/-- A file that was written after the last document is not written again. -/
theorem Reaches.lasts (h : g.Reaches source d c) (hp : g.Plain source d) (hf : Finishing c.phase)
    (hw : p ∈ c.pass.wrote) (hl : c.pass.emitter.disk.locate p = .ok l) {b : Bytes}
    (hb : c.pass.emitter.disk.node? l = some (.file b)) (hc : g.Leads source c c') :
    c'.pass.emitter.disk.node? l = some (.file b) := by
  have hpath := h.wrote_stays hp hw
  induction hc with
  | refl => exact hb
  | tail hc hs ih =>
      have hr := h.of_leads hc
      refine hs.of_turn (P := fun e _ => e.disk.node? l = some (.file b)) ?_ ih
      intro q text marker ht hfree
      rcases Emitter.emit_file text ((hr.asks ht).marker_ne h.valid) ih with hk | ⟨hok, -, hlq, -⟩
      · exact hk
      · -- The path of another output to this place is equal to `p`, so that output is a conflict.
        have hlp := (Emitter.emit_grows _ q text marker).locate_ok ((Leads.grows hc).locate_ok hl)
        have he := hpath.equiv_of_place (hr.turn_stays hp ht hok) hlp hlq
        have hwritten := hr.hasWritten.2 ⟨p, Leads.wrote hc hw, he⟩
        rw [hfree (Leads.finishing hc hf)] at hwritten
        cases hwritten

/-- What is written after the last document holds what it was written with until the run ends. -/
theorem Reaches.turn_node {c'' : Stage} {text marker : String} (h : g.Reaches source d c)
    (hp : g.Plain source d) (ht : d.IsTree) (hturn : g.Turn source c p text marker)
    (hf : Finishing c.phase) (hs : g.Step source c c')
    (hdone : (c.pass.writeOnce p text marker).2 = true) (hc : g.Leads source c' c'') :
    ∃ l, c''.pass.emitter.disk.locate p = .ok l ∧
      c''.pass.emitter.disk.node? l = some (.file (encode text)) := by
  have hpass := hturn.pass hf hs
  rcases writeOnce_cases c.pass p text marker with ⟨-, he⟩ | ⟨hn, ⟨f, -, he⟩ | ⟨hok, he⟩⟩
  · rw [he] at hdone
    cases hdone
  · rw [he] at hdone
    cases hdone
  · have hmem : p ∈ c'.pass.wrote := by
      rw [hpass, writeOnce_wrote, hn]
      exact List.mem_append_right _ (mem_wrote_emission.2 ⟨rfl, hok⟩)
    have hem : c'.pass.emitter = (c.pass.emitter.emit p text marker).emitter := by
      rw [hpass, writeOnce_emitter, hn]
      rfl
    obtain ⟨l, hl, hnode, -⟩ := Emitter.emit_plain (h.isTree ht) ((h.asks hturn).marker_ne h.valid)
      (h.finishing_stays hp hturn hf).plain hok
    rw [← hem] at hl hnode
    exact ⟨l, (Leads.grows hc).locate_ok hl, (h.step hs).lasts hp (hs.finishing hf) hmem hl hnode hc⟩

theorem Reaches.listing_node {rest : List (Path × String)} {text : String}
    (h : g.Reaches source d ⟨.listings ((p, text) :: rest), s⟩) (hp : g.Plain source d)
    (ht : d.IsTree) (hdone : (s.writeOnce p text g.config.marker).2 = true)
    (hc : g.Leads source ⟨.listings rest, (s.writeOnce p text g.config.marker).1⟩ c') :
    ∃ l, c'.pass.emitter.disk.locate p = .ok l ∧
      c'.pass.emitter.disk.node? l = some (.file (encode text)) :=
  h.turn_node hp ht .listing (finishing_listings _) .listing hdone hc

theorem Leads.stage {K : List (Path × String) → Phase}
    (hstep : ∀ (p : Path) (text : String) (rest : List (Path × String)) (s : Pass), g.Step source
      ⟨K ((p, text) :: rest), s⟩ ⟨K rest, (s.writeOnce p text g.config.marker).1⟩)
    {files : List (Path × String)} {f : Path × String} (hf : f ∈ files) (s : Pass) :
    ∃ rest s', g.Leads source ⟨K files, s⟩ ⟨K (f :: rest), s'⟩ := by
  induction files generalizing s with
  | nil => cases hf
  | cons f' files ih =>
      rcases List.mem_cons.1 hf with rfl | hf
      · exact ⟨files, s, .refl⟩
      · obtain ⟨rest, s', hl⟩ := ih hf (s.writeOnce f'.1 f'.2 g.config.marker).1
        exact ⟨rest, s', .head (hstep _ _ _ _) hl⟩

theorem Leads.listing_stage {files : List (Path × String)} {f : Path × String} (hf : f ∈ files)
    (s : Pass) : ∃ rest s', g.Leads source ⟨.listings files, s⟩ ⟨.listings (f :: rest), s'⟩ :=
  Leads.stage (fun _ _ _ _ => .listing) hf s

theorem mem_directed {hs : List Heading} {h : Heading} (hh : h ∈ hs) {t : String}
    (ht : t ∈ h.schema.targets) :
    g.directed h.document t ∈ (hs.flatMap g.entries).map Prod.fst ∨
      g.directed h.document t ∈ (hs.flatMap g.inclusions).map Prod.fst := by
  simp only [List.map_flatMap, List.mem_flatMap]
  rcases List.mem_append.1 ht with ht | ht
  · obtain ⟨x, hx, rfl⟩ := List.mem_map.1 ht
    refine .inl ⟨h, hh, ?_⟩
    rw [entries, List.map_map]
    exact List.mem_map.2 ⟨x, hx, rfl⟩
  · refine .inr ⟨h, hh, ?_⟩
    rw [inclusions, List.map_map]
    exact List.mem_map.2 ⟨t, ht, rfl⟩

/-- Every path that a headed document directs something to is one of the listings of the run, and
what is written there holds all that was directed to it, grouped, when the run ends. -/
theorem listing_contents (g : Generator) (source : Source) (d : Disk) (hp : g.Plain source d)
    (ht : d.IsTree) {documents : List Path} (hd : source.paths d = .ok documents) {r : Report}
    (hr : (g.run source d).outcome = .finished r) :
    r.entities = (g.headed source (g.begin d) documents).length ∧
    ∀ h ∈ g.headed source (g.begin d) documents, ∀ t ∈ h.schema.targets,
      ∀ T, T ≈ g.directed h.document t →
      (∃ p text rest s, g.Reaches source d ⟨.listings ((p, text) :: rest), s⟩ ∧ p ≈ T) ∧
      ∀ p text rest s, g.Reaches source d ⟨.listings ((p, text) :: rest), s⟩ → p ≈ T →
        (s.writeOnce p text g.config.marker).2 = true →
        (g.run source d).disk.read p =
          .ok (encode (g.listing (g.headed source (g.begin d) documents) T)) := by
  obtain ⟨s, hs, rfl, hdisk⟩ := run_finished hr
  have haccounts : ∀ {c : Stage}, g.Reaches source d c → (Finishing c.phase ∨ c.phase = .documents []) →
      g.Accounts (g.headed source (g.begin d) documents) c.pass := by
    intro c hc hphase
    obtain ⟨documents', hd', ha⟩ := hc.accounted
    cases hd.symm.trans hd'
    exact ha.whole hphase
  refine ⟨?_, fun h hh t htarget T hT => ⟨?_, ?_⟩⟩
  · rw [finish_eq]
    exact (haccounts hs.last (.inl finishing_done)).entities
  · have hx := (haccounts hs (.inr rfl)).index.targets.2 T
    obtain ⟨p, hp', he⟩ := hx.2 ⟨_, mem_directed hh htarget, Setoid.symm hT⟩
    have hfile : (p, s.index.text g.config.marker p) ∈ s.index.files g.config.marker :=
      List.mem_map.2 ⟨p, hp', rfl⟩
    obtain ⟨rest, s', hl⟩ := Leads.listing_stage hfile s
    exact ⟨p, _, rest, s', hs.of_leads (.head .listings hl), he⟩
  · intro p text rest s' hs' hpT hdone
    have hend := hs'.step .listing
    obtain ⟨l, hl, hn⟩ := hs'.listing_node hp ht hdone (hend.leads hs.last (.inl rfl))
    obtain ⟨p', hm, he⟩ := List.mem_map.1 (hs'.planned.subset List.mem_cons_self)
    cases he
    rw [(haccounts hs' (.inl (finishing_listings _))).text, listing_congr _ hpT] at hn
    rw [hdisk, Disk.read, Disk.find_ok.2 ⟨l, hl, hn⟩]

def defaults : Generator := ⟨{}, "out"⟩

theorem defaults_plain_of {cs : List (Path × Option Bytes)} (hpaths : ∀ c ∈ cs, Level c.1)
    (htargets : ∀ c ∈ cs, ∃ b schema, c.2 = some b ∧ Schema.parse b = .ok schema ∧
      ∀ t ∈ schema.targets, Level (t : Path)) : defaults.Plain (.inMemory cs) d where
  output := by decide
  plain := by decide
  documents ps hps p hp := by
    cases hps
    obtain ⟨c, hc, rfl⟩ := List.mem_map.1 hp
    exact hpaths c hc
  targets document schema ht := by
    obtain ⟨rest, s, bytes, -, hread, hschema⟩ := ht
    simp only [Source.inMemory] at hread
    split at hread
    next b hfound =>
      cases hread
      obtain ⟨c, hc, hb⟩ := Option.bind_eq_some_iff.1 hfound
      obtain ⟨b', schema', hb', hschema', hlevel⟩ := htargets c (List.mem_of_find?_eq_some hc)
      cases hb.symm.trans hb'
      cases hschema.symm.trans hschema'
      exact hlevel
    · cases hread
  bindingHeader := ⟨by decide, by decide⟩
  bindingSource := ⟨by decide, by decide⟩
  manifest := ⟨by decide, by decide⟩

def membersText (name : String) : Bytes := encode ("\x7b\"name\":\"" ++ name ++ "\",\"generate\":" ++
  "[\"chai_bindings\"],\"xlisted\":[[\"ALL\",\"all.hpp\"]],\"include_in\":[\"all.hpp\"]\x7d")

def memberSchema (name : String) : Schema where
  name := name
  flags := ["chai_bindings"]
  xlists := [⟨"ALL", "all.hpp"⟩]
  includeIn := ["all.hpp"]

def firstMember : Path × Option Bytes := ("a.json", some (membersText "A"))

def secondMember : Path × Option Bytes := ("b.json", some (membersText "B"))

def forth : Source := .inMemory [firstMember, secondMember]

theorem parse_members : Schema.parse (membersText "A") = .ok (memberSchema "A") ∧
    Schema.parse (membersText "B") = .ok (memberSchema "B") := by decide +kernel

theorem member_levels : ∀ c ∈ [firstMember, secondMember], ∃ b schema, c.2 = some b ∧
    Schema.parse b = .ok schema ∧ ∀ t ∈ schema.targets, Level (t : Path) := by
  simp only [List.forall_mem_cons]
  exact ⟨⟨_, _, rfl, parse_members.1, by decide⟩, ⟨_, _, rfl, parse_members.2, by decide⟩, by simp⟩

theorem Reaches.held {cs : List (Path × Option Bytes)} {p : Path} {ps : List Path} {s : Pass}
    (h : g.Reaches (.inMemory cs) d ⟨.documents (p :: ps), s⟩) : ∃ c ∈ cs, c.1 = p := by
  obtain ⟨documents, hd, hmem⟩ := h.remaining
  cases hd
  exact List.mem_map.1 (hmem _ rfl p List.mem_cons_self)

theorem forth_plain : defaults.Plain forth bare := defaults_plain_of (by decide) member_levels

theorem forth_outcome : (defaults.run forth bare).outcome = .finished {
    generated := ["out/a.hpp", "out/b.hpp", "out/all.hpp", "out/chai_bindings.hpp", "out/chai_bindings.cpp"]
    manifest := some "out/CMakeLists.txt"
    entities := 2
    failures := [] } := by decide +kernel

def firstHeaded : Heading := ⟨"a.json", memberSchema "A", "out/a.hpp"⟩

def secondHeaded : Heading := ⟨"b.json", memberSchema "B", "out/b.hpp"⟩

def sharedPath : Path := "out/all.hpp"

def reached (x : Except Pass Pass) : Pass :=
  match x with
  | .ok s | .error s => s

theorem eq_ok_reached {x : Except Pass Pass} (h : x.toBool = true) : x = .ok (reached x) := by
  cases x with
  | ok s => rfl
  | error s => cases h

def membersPass : Pass :=
  reached ((["a.json", "b.json"] : List Path).foldlM (defaults.process forth) (defaults.begin bare))

theorem fold_members : (["a.json", "b.json"] : List Path).foldlM (defaults.process forth)
    (defaults.begin bare) = .ok membersPass :=
  eq_ok_reached (by decide +kernel)

def sharedFile : String := membersPass.index.text defaults.config.marker sharedPath

theorem shared_file : defaults.headed forth (defaults.begin bare) ["a.json", "b.json"] =
      [firstHeaded, secondHeaded] ∧
    membersPass.index.files defaults.config.marker = [(sharedPath, sharedFile)] ∧
    (membersPass.writeOnce sharedPath sharedFile defaults.config.marker).2 = true ∧
    defaults.listing [firstHeaded, secondHeaded] sharedPath =
      Listing.fileText ["out/a.hpp", "out/b.hpp"] [("ALL", ["A", "B"])] defaults.config.marker := by
  decide +kernel

theorem reaches_shared :
    defaults.Reaches forth bare ⟨.listings [(sharedPath, sharedFile)], membersPass⟩ := by
  refine ⟨by decide +kernel, _, rfl, ?_⟩
  rw [← shared_file.2.1]
  exact .tail (Leads.documents.1 _ fold_members) .listings

theorem listing_contents_shared : defaults.Plain forth bare ∧ bare.IsTree ∧
    forth.paths bare = .ok ["a.json", "b.json"] ∧
    (membersPass.writeOnce sharedPath sharedFile defaults.config.marker).2 = true ∧
    (defaults.run forth bare).disk.read sharedPath = .ok (encode
      (Listing.fileText ["out/a.hpp", "out/b.hpp"] [("ALL", ["A", "B"])] defaults.config.marker)) := by
  have ht : bare.IsTree := by decide
  have hd : forth.paths bare = .ok ["a.json", "b.json"] := rfl
  obtain ⟨hheaded, -, hwritten, htext⟩ := shared_file
  have hall := (listing_contents defaults forth bare forth_plain ht hd forth_outcome).2
  rw [hheaded] at hall
  have htarget : sharedPath ≈ defaults.directed "a.json" "all.hpp" := by decide
  obtain ⟨-, hcontent⟩ := hall _ List.mem_cons_self "all.hpp" (by decide) sharedPath htarget
  have hread := hcontent _ _ _ _ reaches_shared (Setoid.refl _) hwritten
  rw [htext] at hread
  exact ⟨forth_plain, ht, hd, hwritten, hread⟩

/-- A working directory with two links that lead to it from elsewhere. -/
def twoWays : Linked where
  disk := {
    workingDirectory := ["w"]
    nodes := [(["w"], .directory), (["proc"], .directory), (["proc", "self"], .directory),
      (["proc", "thread-self"], .directory)]
    nodup := by decide }
  links := [(["proc", "self", "cwd"], ["w"]), (["proc", "thread-self", "cwd"], ["w"])]

def throughLinks : Generator where
  config := {
    bindingHeader := "self/cwd/chai_bindings.hpp"
    bindingSource := "self/cwd/chai_bindings.cpp"
    manifestFile := "self/cwd/CMakeLists.txt" }
  output := "/proc"

def listerText (name list : String) : Bytes :=
  encode ("\x7b\"name\":\"" ++ name ++ "\",\"xlisted\":[[\"" ++ list ++ "\",\"all.hpp\"]]\x7d")

def listerSchema (name list : String) : Schema where
  name := name
  xlists := [⟨list, "all.hpp"⟩]

def firstLister : Path × Option Bytes := ("self/cwd/A.json", some (listerText "A" "LA"))

def secondLister : Path × Option Bytes := ("thread-self/cwd/B.json", some (listerText "B" "LB"))

def listersReport : Report where
  generated := ["/proc/self/cwd/A.hpp", "/proc/thread-self/cwd/B.hpp", "/proc/self/cwd/all.hpp",
    "/proc/thread-self/cwd/all.hpp", "/proc/self/cwd/chai_bindings.hpp",
    "/proc/self/cwd/chai_bindings.cpp"]
  manifest := some "/proc/self/cwd/CMakeLists.txt"
  entities := 2
  failures := []

/-- Two documents that ask a list each of one file, by way of a link each. -/
def listers : Source Linked := .inMemory [firstLister, secondLister]

theorem parse_listers : Schema.parse (listerText "A" "LA") = .ok (listerSchema "A" "LA") ∧
    Schema.parse (listerText "B" "LB") = .ok (listerSchema "B" "LB") := by decide +kernel

theorem listers_run : (throughLinks.run listers twoWays).outcome = .finished listersReport ∧
    FileSystem.readHead (throughLinks.run listers twoWays).disk "/proc/self/cwd/all.hpp" 1000 =
      .ok (encode (Listing.fileText [] [("LB", ["B"])] throughLinks.config.marker)) := by
  decide +kernel

/-- Two links lead to one file, and the list of the first document is lost to that of the second. The
file holds fewer than 1000 octets. -/
theorem linked_listing_lost :
    (Schema.parse (listerText "A" "LA") = .ok (listerSchema "A" "LA") ∧
      Schema.parse (listerText "B" "LB") = .ok (listerSchema "B" "LB")) ∧
    (throughLinks.run listers twoWays).outcome = .finished listersReport ∧
    throughLinks.listing [⟨"self/cwd/A.json", listerSchema "A" "LA", "/proc/self/cwd/A.hpp"⟩,
        ⟨"thread-self/cwd/B.json", listerSchema "B" "LB", "/proc/thread-self/cwd/B.hpp"⟩]
        "/proc/self/cwd/all.hpp" =
      Listing.fileText [] [("LA", ["A"])] throughLinks.config.marker ∧
    FileSystem.readHead (throughLinks.run listers twoWays).disk "/proc/self/cwd/all.hpp" 1000 =
      .ok (encode (Listing.fileText [] [("LB", ["B"])] throughLinks.config.marker)) :=
  ⟨parse_listers, listers_run.1, by decide +kernel, listers_run.2⟩

end Generator

end EntityGen
