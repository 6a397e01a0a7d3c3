import EntityGen.Proofs.Enumeration.Exact
import EntityGen.Proofs.Run.Enumerated

namespace EntityGen

open Disk (IsName segments)

namespace Path

theorem join_segments (r : Path) : ∃ l ss, ∀ q : Path, q.lead = .none →
    (r / q).lead = l ∧ segments (r / q) = ss ++ segments q := by
  obtain ⟨l, base, hjoin⟩ := join_pieces r
  refine ⟨l, l.segments ++ named base, fun q hq => ?_⟩
  obtain ⟨hlead, hpieces⟩ := hjoin q hq
  have hsegments : segments q = named q.pieces := by
    rw [segments_eq, hq]
    rfl
  exact ⟨hlead, by rw [segments_eq, hlead, hpieces, named_append, hsegments, List.append_assoc]⟩

end Path

namespace DirectorySource

variable {s : DirectorySource} {d : Disk} {l : Location} {p r : Path} {ms ns dir : List String} {stem : String}
  {ps : List Path}

theorem names_of_place (hms : ms ≠ []) (hns : ns ≠ []) (h : ∀ n ∈ ms, IsName n) (h' : ∀ n ∈ ns, IsName n)
    (hl : d.locate (r / relativePath ms) = .ok l) (hl' : d.locate (r / relativePath ns) = .ok l) : ms = ns := by
  obtain ⟨lead, ss, hjoin⟩ := Path.join_segments r
  have hplace : ∀ ks : List String, ks ≠ [] → (∀ n ∈ ks, IsName n) →
      d.locate (r / relativePath ks) = .ok l → ∃ k, d.follow (d.start (r / ⟨""⟩)) ss = .ok k ∧ l = k ++ ks := by
    intro ks hne hks hl
    obtain ⟨hlead, hsegments⟩ := hjoin _ (relativePath_pieces hne hks).1
    have hstart : d.start (r / relativePath ks) = d.start (r / ⟨""⟩) :=
      Disk.start_congr (hlead.trans (hjoin ⟨""⟩ rfl).1.symm)
    obtain ⟨-, hl⟩ := Disk.locate_ok hl
    rw [hsegments, hstart, relativePath_segments hne hks, List.append_assoc, Disk.follow_append_ok] at hl
    obtain ⟨k, hk, hl⟩ := hl
    have hup : ".." ∉ ks := fun hm => absurd (hks _ hm).dots (by decide)
    have hsteps : Disk.steps ks = ks := by
      refine List.filter_eq_self.2 fun n hn => ?_
      have hdots := (hks n hn).dots
      simp only [Disk.isDots, Bool.or_eq_false_iff, beq_eq_false_iff_ne] at hdots
      exact decide_eq_true hdots.1
    have hplain : ".." ∉ ks ++ if Disk.endsInSlash (r / relativePath ks) then ["."] else [] := by
      split <;> simpa using hup
    have hend : Disk.steps (if Disk.endsInSlash (r / relativePath ks) then ["."] else []) = [] := by
      split <;> rfl
    refine ⟨k, hk, ?_⟩
    rw [Disk.follow_plain hplain hl, Disk.steps_append, hsteps, hend, List.append_nil]
  obtain ⟨k, hk, hms⟩ := hplace ms hms h hl
  obtain ⟨k', hk', hns⟩ := hplace ns hns h' hl'
  cases hk.symm.trans hk'
  exact List.append_cancel_left (hms.symm.trans hns)

/-- `p` is in `dir`, and its name is `stem` and the extension of documents. -/
structure Called (s : DirectorySource) (p : Path) (dir : List String) (stem : String) : Prop where
  path : p = relativePath (dir ++ [stem ++ "." ++ s.extension])
  directory : ∀ m ∈ dir, IsName m
  name : IsName (stem ++ "." ++ s.extension)
  split : Path.splitExtension (stem ++ "." ++ s.extension).toList = (stem.toList, some s.extension.toList)

theorem Called.stem_ne (h : s.Called p dir stem) : stem ≠ "" := by
  have hname : (stem ++ "." ++ s.extension).toList ≠ [] := fun hnil => h.name.ne (String.toList_eq_nil_iff.1 hnil)
  have hstem := (Path.splitExtension_stem hname).1
  rw [h.split] at hstem
  rintro rfl
  exact hstem rfl

theorem Called.stem_slash (h : s.Called p dir stem) : '/' ∉ stem.toList := by
  intro hm
  refine h.name.slash ?_
  rw [String.toList_append, String.toList_append, List.append_assoc]
  exact List.mem_append_left _ hm

theorem Called.names (h : s.Called p dir stem) : ∀ m ∈ dir ++ [stem ++ "." ++ s.extension], IsName m :=
  List.forall_mem_append.2 ⟨h.directory, List.forall_mem_singleton.2 h.name⟩

theorem Called.above (h : s.Called p dir stem) : p.above = relativePath dir := by
  obtain ⟨hlead, hpieces⟩ := relativePath_pieces (by simp) h.names
  have hcounts := (relativePath_tidy (by simp) h.names).pieces
  rw [← h.path] at hlead hpieces hcounts
  have hnone : ∀ ps : List (List Char), ps ⊆ p.pieces → (∀ x ∈ ps, Path.isIdle x = true) → ps = [] := by
    intro ps hsub hidle
    refine List.eq_nil_iff_forall_not_mem.2 fun x hx => ?_
    have hcount := hcounts x (hsub hx)
    rw [hidle x hx] at hcount
    cases hcount
  rcases p.above_cases with ⟨ps, idle, x, idle', hp, hidle, -, hidle', habove, -⟩ | ⟨hidle, -⟩
  · rw [hnone idle (by simp [hp]) hidle, hnone idle' (by simp [hp]) hidle', List.append_nil, hpieces,
      List.map_append, List.map_singleton] at hp
    rw [habove, hlead, relativePath_eq, (List.append_inj' hp rfl).1]
  · have hnil := hnone p.pieces (List.Subset.refl _) hidle
    rw [hpieces] at hnil
    simp at hnil

theorem document_called (hd : d.Named) (hroot : d.find s.root = .ok .directory) (h : s.paths d = .ok ps)
    (hp : p ∈ ps) : ∃ dir stem, s.Called p dir stem := by
  rcases paths_cases h hp with ⟨-, -, b, hb⟩ | ⟨l, dir, n, b, -, he, hext, rfl⟩
  · rw [hroot] at hb
    cases hb
  · have hnames := hd.below he
    have hsome := of_decide_eq_true hext
    have hn : n = .ofList (Path.splitExtension n.toList).1 ++ "." ++ s.extension := by
      apply String.toList_injective
      rw [String.toList_append, String.toList_append, String.toList_ofList, List.append_assoc]
      exact Path.splitExtension_some hsome
    obtain ⟨hdir, hname⟩ := List.forall_mem_append.1 hnames
    refine ⟨dir, .ofList (Path.splitExtension n.toList).1, ?_, hdir, ?_, ?_⟩
    · rw [← hn]
    · rw [← hn]
      exact List.forall_mem_singleton.1 hname
    · rw [← hn, String.toList_ofList, ← hsome]

end DirectorySource

namespace Generator

open DirectorySource

variable {g : Generator} {s : DirectorySource} {d : Disk} {p q o : Path} {ps : List Path} {dir dir' : List String}
  {stem stem' ext : String}

/-- What the header of a document is called; a dot loses the extension. -/
def headerName (stem ext : String) : String := if stem = "." then ".." else stem ++ "." ++ ext

theorem headerName_toList {x : List Char} (hx : (Path.splitExtension x).1 = stem.toList) (he : ext ≠ "") :
    (headerName stem ext).toList = Path.renamed x ext := by
  have hdot : stem = "." ↔ stem.toList = ['.'] := by
    rw [← String.toList_inj]
    rfl
  rw [headerName, Path.renamed, hx, Path.extended, if_neg he]
  by_cases hstem : stem = "."
  · rw [if_pos hstem, if_pos (hdot.1 hstem)]
    rfl
  · rw [if_neg hstem, if_neg (mt hdot.2 hstem)]
    simp

theorem headerName_slash (hstem : '/' ∉ stem.toList) (he : '/' ∉ ext.toList) :
    '/' ∉ (headerName stem ext).toList := by
  rw [headerName]
  split
  · decide
  · simp [hstem, he]

theorem headerName_counts (hstem : stem ≠ "") (he : ext ≠ "") :
    Path.isIdle (headerName stem ext).toList = false := by
  have hextended : (stem ++ "." ++ ext).toList = Path.extended stem.toList ext := by simp [Path.extended, he]
  rw [headerName]
  split
  · rfl
  · rw [hextended]
    exact Path.isIdle_extended (fun hnil => hstem (String.toList_eq_nil_iff.1 hnil)) (.inl he)

theorem extended_ne_up (hstem : stem ≠ "") (he : ext ≠ "") : stem ++ "." ++ ext ≠ ".." := by
  intro h
  have hlength := congrArg String.length h
  have hs : stem.length ≠ 0 := fun hz => hstem (String.length_eq_zero_iff.1 hz)
  have he : ext.length ≠ 0 := fun hz => he (String.length_eq_zero_iff.1 hz)
  rw [String.length_append, String.length_append] at hlength
  have hdot : ("." : String).length = 1 := rfl
  have hup : (".." : String).length = 2 := rfl
  omega

theorem headerName_injective (hstem : stem ≠ "") (hstem' : stem' ≠ "") (he : ext ≠ "")
    (h : headerName stem ext = headerName stem' ext) : stem = stem' := by
  rw [headerName, headerName] at h
  split at h
  next hdot =>
    split at h
    next hdot' => rw [hdot, hdot']
    next => exact absurd h.symm (extended_ne_up hstem' he)
  next =>
    split at h
    next => exact absurd h (extended_ne_up hstem he)
    next =>
      have hlist := congrArg String.toList h
      rw [String.toList_append, String.toList_append, String.toList_append, String.toList_append] at hlist
      exact String.toList_injective (List.append_cancel_right (List.append_cancel_right hlist))

theorem headerName_isName (hstem : stem ≠ "") (hslash : '/' ∉ stem.toList) (hdot : stem ≠ ".") (he : ext ≠ "")
    (hext : '/' ∉ ext.toList) : IsName (headerName stem ext) := by
  have hcounts := headerName_counts hstem he
  have hup : headerName stem ext ≠ ".." := by
    rw [headerName, if_neg hdot]
    exact extended_ne_up hstem he
  refine ⟨?_, headerName_slash hslash hext, ?_⟩
  · intro hempty
    rw [hempty] at hcounts
    cases hcounts
  · rw [Disk.isDots, Bool.or_eq_false_iff, beq_eq_false_iff_ne, beq_eq_false_iff_ne]
    refine ⟨fun hhere => ?_, hup⟩
    rw [hhere] at hcounts
    cases hcounts

/-- The header of a document called `stem` that is in `dir` below the input directory. -/
def mirror (g : Generator) (dir : List String) (stem : String) : Path :=
  g.output / relativePath (dir ++ [headerName stem g.config.outputExt])

section

variable (hne : g.config.outputExt ≠ "") (hslash : '/' ∉ g.config.outputExt.toList)

include hne in
theorem document_of_header (h : s.Called p dir stem) (h' : s.Called q dir' stem')
    (he : dir ++ [headerName stem g.config.outputExt] = dir' ++ [headerName stem' g.config.outputExt]) : p = q := by
  obtain ⟨hdir, hname⟩ := List.append_inj' he rfl
  rw [h.path, h'.path, hdir, headerName_injective h.stem_ne h'.stem_ne hne (List.singleton_inj.1 hname)]

include hne hslash

theorem header_spelled (h : s.Called p dir stem) :
    (relativePath (dir ++ [headerName stem g.config.outputExt])).Tidy ∧
    (relativePath (dir ++ [headerName stem g.config.outputExt])).pieces =
      (dir ++ [headerName stem g.config.outputExt]).map String.toList := by
  have hwhole : ∀ m ∈ dir ++ [headerName stem g.config.outputExt], '/' ∉ m.toList :=
    List.forall_mem_append.2 ⟨fun m hm => (h.directory m hm).slash,
      List.forall_mem_singleton.2 (headerName_slash h.stem_slash hslash)⟩
  have hcounts : ∀ m ∈ dir ++ [headerName stem g.config.outputExt], Path.isIdle m.toList = false :=
    List.forall_mem_append.2 ⟨fun m hm => (h.directory m hm).counts.1,
      List.forall_mem_singleton.2 (headerName_counts h.stem_ne hne)⟩
  obtain ⟨hlead, hpieces⟩ := relativePath_spelled (by simp) hwhole hcounts
  refine ⟨⟨hlead, fun x hx => ?_⟩, hpieces⟩
  obtain ⟨m, hm, rfl⟩ := List.mem_map.1 (hpieces ▸ hx)
  exact hcounts m hm

theorem entityPath_mirror (h : s.Called p dir stem) : g.entityPath? p = some (g.mirror dir stem) := by
  obtain ⟨l, base, hjoin⟩ := Path.join_pieces g.output
  obtain ⟨hlead, hpieces⟩ := relativePath_pieces (by simp) h.names
  have hp : (g.output / p).pieces = (base ++ dir.map String.toList) ++ [(stem ++ "." ++ s.extension).toList] := by
    rw [h.path, (hjoin _ hlead).2, hpieces, List.map_append, List.map_singleton, List.append_assoc]
  obtain ⟨o, ho, hl, hms⟩ := Path.withExtension_last hp h.name.counts.1 hslash
  rw [← headerName_toList (congrArg Prod.fst h.split) hne] at hms
  obtain ⟨htidy, hheader⟩ := header_spelled hne hslash h
  have hmirror : o = g.mirror dir stem := by
    refine Path.eq_of_pieces ?_ ?_
    · rw [hl, h.path, (hjoin _ hlead).1, mirror, (hjoin _ htidy.lead).1]
    · rw [hms, mirror, (hjoin _ htidy.lead).2, hheader, List.map_append, List.map_singleton, List.append_assoc]
  rw [entityPath?, ho, hmirror]

theorem mirror_injective (h : s.Called p dir stem) (h' : s.Called q dir' stem')
    (he : g.mirror dir stem ≈ g.mirror dir' stem') : p = q := by
  obtain ⟨htidy, hpieces⟩ := header_spelled hne hslash h
  obtain ⟨htidy', hpieces'⟩ := header_spelled hne hslash h'
  rw [Path.join_injective htidy htidy' he, hpieces'] at hpieces
  exact document_of_header hne h h' (List.map_injective_iff.2 (fun _ _ => String.toList_injective) hpieces.symm)

theorem mirror_dot (h : s.Called p dir ".") : (g.mirror dir ".").fileName? = none := by
  obtain ⟨l, base, hjoin⟩ := Path.join_pieces g.output
  obtain ⟨htidy, hpieces⟩ := header_spelled hne hslash h
  have hp : (g.mirror dir ".").pieces = (base ++ dir.map String.toList) ++ [['.', '.']] := by
    have hname : headerName "." g.config.outputExt = ".." := if_pos rfl
    rw [mirror, (hjoin _ htidy.lead).2, hpieces, hname, List.map_append, List.append_assoc]
    rfl
  rw [Path.fileName?_eq hp rfl (by simp), if_pos rfl]

theorem header_names (h : s.Called p dir stem) (hdot : stem ≠ ".") :
    ∀ m ∈ dir ++ [headerName stem g.config.outputExt], IsName m :=
  List.forall_mem_append.2 ⟨h.directory,
    List.forall_mem_singleton.2 (headerName_isName h.stem_ne h.stem_slash hdot hne hslash)⟩

theorem mirror_place (h : s.Called p dir stem) (h' : s.Called q dir' stem') (hdot : stem ≠ ".")
    (hdot' : stem' ≠ ".") {l : Location} (hl : d.locate (g.mirror dir stem) = .ok l)
    (hl' : d.locate (g.mirror dir' stem') = .ok l) : p = q := by
  have hsame := names_of_place (by simp) (by simp) (header_names hne hslash h hdot)
    (header_names hne hslash h' hdot') hl hl'
  exact document_of_header hne h h' hsame

end

/-- Below a directory each document has a header of its own in the mirrored place, called by what comes
before the last dot in the document's name and by the output extension; only what is called by a dot there
gets no such name, and never a header. No header of a run is written where another one is. -/
theorem headers_mirrored (g : Generator) (root : Path) (ext : String) (d : Disk) (hd : d.Named)
    (hroot : d.find root = .ok .directory) (hps : (DirectorySource.of root ext).paths d = .ok ps)
    (hne : g.config.outputExt ≠ "") (hslash : '/' ∉ g.config.outputExt.toList) :
    (∀ p ∈ ps, ∃ dir stem, (DirectorySource.of root ext).Called p dir stem ∧
      g.directiveDirectory p = g.output / relativePath dir ∧ g.entityPath? p = some (g.mirror dir stem) ∧
      (stem = "." → ∀ (e : Emitter) (text marker : String),
        (e.emit (g.mirror dir stem) text marker).result ≠ .ok ())) ∧
    (∀ p ∈ ps, ∀ q ∈ ps, p ≠ q → ∀ o o', g.entityPath? p = some o → g.entityPath? q = some o' → ¬ o ≈ o') ∧
    ∀ source d₀, (g.headed source (g.begin d₀) ps).Pairwise fun h h' => ∀ (d' : Disk) (l : Location),
      d'.locate h.output = .ok l → d'.locate h'.output ≠ .ok l := by
  have hcalled : ∀ p ∈ ps, ∃ dir stem, (DirectorySource.of root ext).Called p dir stem := fun p hp =>
    document_called hd hroot hps hp
  refine ⟨fun p hp => ?_, fun p hp q hq hpq o o' ho ho' he => ?_, fun source d₀ => ?_⟩
  · obtain ⟨dir, stem, h⟩ := hcalled p hp
    refine ⟨dir, stem, h, congrArg (g.output / ·) h.above, entityPath_mirror hne hslash h, ?_⟩
    rintro rfl e text marker hr
    exact emit_fileName hr (mirror_dot hne hslash h)
  · obtain ⟨dir, stem, h⟩ := hcalled p hp
    obtain ⟨dir', stem', h'⟩ := hcalled q hq
    rw [entityPath_mirror hne hslash h, Option.some.injEq] at ho
    rw [entityPath_mirror hne hslash h', Option.some.injEq] at ho'
    rw [← ho, ← ho'] at he
    exact hpq (mirror_injective hne hslash h h' he)
  · obtain ⟨l, hl, hn⟩ := Disk.find_ok.1 hroot
    have hnodup : ps.Nodup := by
      rw [paths_eq hl hn hps]
      exact nodup_of_increasing (documents_increasing hd l)
    have hapart := List.pairwise_map.1 (hnodup.sublist (g.headed_documents source (g.begin d₀) ps))
    refine hapart.imp_of_mem fun {h h'} hh hh' hdocuments d' l hl hl' => hdocuments ?_
    have hstem : ∀ {h : Heading}, h ∈ g.headed source (g.begin d₀) ps → ∃ dir stem, stem ≠ "." ∧
        (DirectorySource.of root ext).Called h.document dir stem ∧ h.output = g.mirror dir stem := by
      intro h hh
      obtain ⟨ho, hname⟩ := headed_fileName hh
      obtain ⟨dir, stem, hc⟩ := hcalled h.document
        ((g.headed_documents source (g.begin d₀) ps).subset (List.mem_map_of_mem hh))
      rw [entityPath_mirror hne hslash hc, Option.some.injEq] at ho
      refine ⟨dir, stem, ?_, hc, ho.symm⟩
      rintro rfl
      exact hname (ho ▸ mirror_dot hne hslash hc)
    obtain ⟨dir, stem, hdot, hc, ho⟩ := hstem hh
    obtain ⟨dir', stem', hdot', hc', ho'⟩ := hstem hh'
    rw [ho] at hl
    rw [ho'] at hl'
    exact mirror_place hne hslash hc hc' hdot hdot' hl hl'

def begun : Disk where
  workingDirectory := []
  nodes := [(["in"], .directory), (["in", "a.json"], .file pureText), (["in", "a.b.json"], .file pureText)]
  nodup := by decide

theorem begun_names : begun.names ["in"] = ["a.b.json", "a.json"] := Disk.names_eq (by decide) (by decide)

theorem begun_paths : (DirectorySource.of "in" "json").paths begun = .ok ["a.b.json", "a.json"] :=
  (paths_of_files (by decide +kernel) (by decide +kernel) (by decide) begun_names (by decide +kernel)).trans
    (by decide +kernel)

def twoPart : Generator := ⟨{ outputExtension := "gen.hpp" }, "out"⟩

theorem begun_mirrored : begun.Named ∧ begun.find "in" = .ok .directory ∧
    (DirectorySource.of "in" "json").paths begun = .ok ["a.b.json", "a.json"] ∧
    twoPart.config.outputExt ≠ "" ∧ '/' ∉ twoPart.config.outputExt.toList ∧
    twoPart.entityPath? "a.b.json" = some "out/a.b.gen.hpp" ∧
    twoPart.entityPath? "a.json" = some "out/a.gen.hpp" ∧
    ¬ ("out/a.b.gen.hpp" : Path) ≈ "out/a.gen.hpp" := by
  have hd : begun.Named := by decide +kernel
  have hroot : begun.find "in" = .ok .directory := by decide +kernel
  have hne : twoPart.config.outputExt ≠ "" := by decide +kernel
  have hslash : '/' ∉ twoPart.config.outputExt.toList := by decide +kernel
  have hlong : twoPart.entityPath? "a.b.json" = some "out/a.b.gen.hpp" := by decide +kernel
  have hshort : twoPart.entityPath? "a.json" = some "out/a.gen.hpp" := by decide +kernel
  obtain ⟨-, hapart, -⟩ := headers_mirrored twoPart "in" "json" begun hd hroot begun_paths hne hslash
  exact ⟨hd, hroot, begun_paths, hne, hslash, hlong, hshort,
    hapart "a.b.json" (by simp) "a.json" (by simp) (by decide) _ _ hlong hshort⟩

def dots : Disk where
  workingDirectory := []
  nodes := [(["in"], .directory), (["in", "..json"], .file pureText)]
  nodup := by decide

theorem dots_names : dots.names ["in"] = ["..json"] := Disk.names_eq (by decide) (by decide)

theorem dots_paths : (DirectorySource.of "in" "json").paths dots = .ok ["..json"] :=
  (paths_of_files (by decide +kernel) (by decide +kernel) (by decide) dots_names (by decide +kernel)).trans
    (by decide +kernel)

/-- The stem of the document is a dot, but its header would be the directory above. -/
theorem dot_lost : (DirectorySource.of "in" "json").paths dots = .ok ["..json"] ∧
    Path.splitExtension "..json".toList = (['.'], some "json".toList) ∧
    defaults.entityPath? "..json" = some "out/.." ∧
    (defaults.runDirectory "in" dots).outcome = .finished {
      generated := ["out/chai_bindings.hpp", "out/chai_bindings.cpp"]
      manifest := some "out/CMakeLists.txt"
      entities := 0
      failures := [.io "out/.." (.disk .isADirectory)] } := by
  have hrun : defaults.runDirectory "in" dots =
      defaults.run { (DirectorySource.of "in" "json").source with paths := fun _ => .ok ["..json"] } dots :=
    run_of_paths dots_paths
  rw [hrun]
  exact ⟨dots_paths, by decide +kernel, by decide +kernel, by decide +kernel⟩

end Generator

end EntityGen
