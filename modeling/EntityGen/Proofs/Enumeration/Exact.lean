import EntityGen.Proofs.Disk.Ensuring
import EntityGen.Proofs.Disk.Plain
import EntityGen.Proofs.Disk.Traversal
import EntityGen.Proofs.Enumeration
import EntityGen.Proofs.Text.Lines
import EntityGen.Proofs.Text.Octets

namespace EntityGen

open Text.Utf8 (Bytes encode encode_lt)

namespace Path

def Component.octets : Component → Bytes
  | .root => encode "/"
  | .here => encode "."
  | .up => encode ".."
  | .name n => encode n

/-- What paths are compared by: `a/b` comes before `a.b`. -/
def octets (p : Path) : List Bytes := p.components.map Component.octets

end Path

namespace Disk

structure IsEntry (s : String) : Prop extends IsName s where
  nul : '\x00' ∉ s.toList
  short : isLong s = false

instance (s : String) : Decidable (IsEntry s) :=
  decidable_of_iff (IsName s ∧ '\x00' ∉ s.toList ∧ isLong s = false)
    ⟨fun h => ⟨h.1, h.2.1, h.2.2⟩, fun h => ⟨h.toIsName, h.nul, h.short⟩⟩

/-- All places are reached by names that a disk can hold. -/
def Storable (d : Disk) : Prop := ∀ e ∈ d.nodes, ∀ s ∈ e.1, IsEntry s

instance (d : Disk) : Decidable d.Storable := inferInstanceAs (Decidable (∀ e ∈ d.nodes, ∀ s ∈ e.1, IsEntry s))

variable {d : Disk} {p : Path} {l : Location} {ms : List String} {x : Node}

theorem Storable.named (h : d.Storable) : d.Named := fun e he s hs => (h e he s hs).toIsName

theorem Storable.entries (h : d.Storable) (hn : d.node? (l ++ ms) = some x) : ∀ s ∈ ms, IsEntry s := by
  intro s hs
  have hne : l ++ ms ≠ [] := List.append_ne_nil_of_right_ne_nil _ (List.ne_nil_of_mem hs)
  exact h _ ((node?_eq_some hne).1 hn) s (List.mem_append_right l hs)

theorem text_ne_of_admitted (h : admit? p = none) : p.text ≠ "" := (admitted_iff.1 h).2.1

theorem follow_of_locate (h : d.locate p = .ok l) : d.follow (d.start p) (segments p) = .ok l := by
  obtain ⟨k, hk, hend⟩ := follow_append_ok.1 (locate_ok h).2
  split at hend
  · obtain ⟨-, m, hm, hend⟩ := (follow_cons ".").1 hend
    cases hm
    cases hend
    exact hk
  · cases hend
    exact hk

theorem IsTree.follow_names (ht : d.IsTree) (hs : ∀ s ∈ ms, IsEntry s) (hn : d.node? (l ++ ms) = some x) :
    d.follow l ms = .ok (l ++ ms) := by
  induction ms generalizing l with
  | nil => rw [List.append_nil, Disk.follow]
  | cons s ms ih =>
      obtain ⟨hentry, hrest⟩ := List.forall_mem_cons.1 hs
      have hdir : d.node? l = some .directory := ht.directory hn (List.cons_ne_nil s ms)
      rw [List.append_cons] at hn
      refine (follow_cons s).2 ⟨hdir, _, step_plain hentry.dots hentry.short, ?_⟩
      rw [ih hrest hn, ← List.append_cons]

end Disk

namespace DirectorySource

open Disk

variable {s : DirectorySource} {d d' : Disk} {l : Location} {ms : List String} {x : Node} {b : Bytes}
  {p : Path} {ps : List Path} {f : Failure}

theorem relativePath_relative (hne : ms ≠ []) (h : ∀ n ∈ ms, IsName n) : (relativePath ms).isAbsolute = false := by
  rw [Path.isAbsolute, (relativePath_pieces hne h).1]
  rfl

theorem relativePath_segments (hne : ms ≠ []) (h : ∀ n ∈ ms, IsName n) : segments (relativePath ms) = ms := by
  obtain ⟨hlead, hpieces⟩ := relativePath_pieces hne h
  have hfull : (ms.map String.toList).filter (· ≠ []) = ms.map String.toList := by
    refine List.filter_eq_self.2 fun x hx => ?_
    obtain ⟨n, hn, rfl⟩ := List.mem_map.1 hx
    simpa using (h n hn).ne
  rw [Path.segments_eq, hlead, hpieces, Path.named, hfull, List.map_map]
  exact List.map_id'' (fun n => String.ofList_toList) ms

theorem relativePath_components (hne : ms ≠ []) (h : ∀ n ∈ ms, IsName n) :
    (relativePath ms).components = ms.map .name := by
  obtain ⟨hlead, hpieces⟩ := relativePath_pieces hne h
  rw [Path.components, hlead, hpieces, List.filterMap_map]
  refine List.filterMap_eq_map_iff_forall_eq_some.2 fun n hn => ?_
  obtain ⟨hcounts, hup⟩ := (h n hn).counts
  rw [Function.comp_apply, Path.component?_counts hcounts, if_neg hup, String.ofList_toList]

theorem relativePath_octets (hne : ms ≠ []) (h : ∀ n ∈ ms, IsName n) :
    (relativePath ms).octets = ms.map encode := by
  rw [Path.octets, relativePath_components hne h, List.map_map]
  rfl

theorem relativePath_suffix (ms : List String) (n : String) :
    n.toList <:+ (relativePath (ms ++ [n])).text.toList := by
  induction ms with
  | nil => simp [relativePath]
  | cons m ms ih =>
      obtain ⟨k, rest, hrest⟩ := List.exists_cons_of_ne_nil (List.concat_ne_nil n ms)
      refine ih.trans ?_
      rw [relativePath, relativePath, List.cons_append, hrest, String.intercalate_cons_cons, String.toList_append]
      exact List.suffix_append _ _

theorem below_slash (hroot : s.root.text ≠ "") (hne : ms ≠ []) (h : ∀ n ∈ ms, IsName n) :
    endsInSlash (s.root / relativePath ms) = false := by
  obtain ⟨cs, htext, -⟩ := Path.join_toList hroot (relativePath_relative hne h)
  obtain ⟨init, n, rfl⟩ := (List.eq_nil_or_concat ms).resolve_left hne
  rw [List.concat_eq_append] at htext h ⊢
  obtain ⟨before, hbefore⟩ := relativePath_suffix init n
  have hn := h n (by simp)
  have hnil : n.toList ≠ [] := fun hnil => hn.ne (String.toList_eq_nil_iff.1 hnil)
  obtain ⟨rest, c, hc⟩ := (List.eq_nil_or_concat n.toList).resolve_left hnil
  rw [List.concat_eq_append] at hc
  have hslash : c ≠ '/' := fun he => hn.slash (by simp [hc, he])
  rw [endsInSlash, htext, ← hbefore, hc, ← List.append_assoc, ← List.cons_append, ← List.append_assoc,
    List.getLast?_concat]
  simpa using hslash

theorem admit_below (ha : admit? s.root = none) (hne : ms ≠ []) (h : ∀ n ∈ ms, IsEntry n) :
    admit? (s.root / relativePath ms) =
      if pathLimit < (s.root / relativePath ms).text.utf8ByteSize then some .nameTooLong else none := by
  have hnul : '\x00' ∉ s.root.text.toList := (admitted_iff.1 ha).1
  have hrel := relativePath_relative hne fun n hn => (h n hn).toIsName
  obtain ⟨cs, htext, hcs⟩ := Path.join_toList (text_ne_of_admitted ha) hrel
  have hnul' : '\x00' ∉ (s.root / relativePath ms).text.toList := by
    have hnames : '\x00' ∉ (relativePath ms).text.toList :=
      Text.not_mem_intercalate (by decide) fun n hn => (h n hn).nul
    have hbefore : '\x00' ∉ cs := by
      rcases hcs with hcs | hcs <;> simp_all
    simp [htext, hbefore, hnames]
  have hempty : (s.root / relativePath ms).text ≠ "" := by
    intro he
    simp [he] at htext
  rw [admit?, if_neg hnul', if_neg hempty]

theorem locate_below (ht : d.IsTree) (hl : d.locate s.root = .ok l) (hne : ms ≠ []) (h : ∀ n ∈ ms, IsEntry n)
    (hn : d.node? (l ++ ms) = some x) (ha : admit? (s.root / relativePath ms) = none) :
    d.locate (s.root / relativePath ms) = .ok (l ++ ms) := by
  have hnames : ∀ n ∈ ms, IsName n := fun n hn => (h n hn).toIsName
  have hrel := relativePath_relative hne hnames
  have hroot := text_ne_of_admitted (locate_ok hl).1
  have hstart : d.start (s.root / relativePath ms) = d.start s.root := start_congr (Path.lead_join hroot hrel)
  rw [locate_admitted ha, below_slash hroot hne hnames, if_neg Bool.false_ne_true, List.append_nil, hstart,
    Path.segments_join hroot hrel, relativePath_segments hne hnames, follow_append_ok]
  exact ⟨l, follow_of_locate hl, ht.follow_names h hn⟩

theorem paths_of_directory (hl : d.locate s.root = .ok l) (hn : d.node? l = some .directory) :
    s.paths d = s.documents (d.below l) := by
  simp only [paths, find_ok.2 ⟨l, hl, hn⟩]
  rw [hl]
  rfl

theorem paths_eq (hl : d.locate s.root = .ok l) (hn : d.node? l = some .directory) (h : s.paths d = .ok ps) :
    ps = (d.below l).filterMap s.document? := by
  rw [paths_of_directory hl hn, documents] at h
  split at h
  · cases h
  · exact (Except.ok.inj h).symm

theorem unopened?_eq_some (ha : admit? s.root = none) (hne : ms ≠ []) (h : ∀ n ∈ ms, IsEntry n) :
    s.unopened? (ms, x) = some f ↔ x = .directory ∧
      pathLimit < (s.root / relativePath ms).text.utf8ByteSize ∧
      f = unvisited (s.root / relativePath ms) .nameTooLong := by
  simp only [unopened?, admit_below ha hne h]
  by_cases hx : x = .directory
  · by_cases hlong : pathLimit < (s.root / relativePath ms).text.utf8ByteSize
    · simp [hx, hlong, eq_comm]
    · simp [hlong]
  · simp [hx]

theorem document?_eq_some (hne : ms ≠ []) (h : ∀ n ∈ ms, IsName n) :
    s.document? (ms, x) = some p ↔ p = relativePath ms ∧ (∃ b, x = .file b) ∧
      (s.root / p).extension? = some s.extension := by
  obtain ⟨init, n, rfl⟩ := (List.eq_nil_or_concat ms).resolve_left hne
  rw [List.concat_eq_append] at h ⊢
  have hext : (s.root / relativePath (init ++ [n])).extension? = some s.extension ↔ s.hasExtension n = true := by
    rw [extension?_below s.root h, hasExtension, decide_eq_true_iff]
    constructor
    · intro he
      obtain ⟨cs, hcs, hs⟩ := Option.map_eq_some_iff.1 he
      rw [hcs, ← hs, String.toList_ofList]
    · intro he
      rw [he, Option.map_some, String.ofList_toList]
  cases x with
  | file b =>
      have hdocument : s.document? (init ++ [n], .file b) =
          if s.hasExtension n then some (relativePath (init ++ [n])) else none := by
        simp only [document?, List.getLast?_concat, Option.any_some]
      rw [hdocument, Option.ite_none_right_eq_some, Option.some.injEq, ← hext]
      constructor
      · rintro ⟨he, rfl⟩
        exact ⟨rfl, ⟨b, rfl⟩, he⟩
      · rintro ⟨rfl, -, he⟩
        exact ⟨he, rfl⟩
  | directory => simp [document?]
  | sink => simp [document?]

/-- A directory below `l` whose path is too long for it to be opened. -/
def Unopened (s : DirectorySource) (d : Disk) (l : Location) (ms : List String) : Prop :=
  ms ≠ [] ∧ d.node? (l ++ ms) = some .directory ∧ pathLimit < (s.root / relativePath ms).text.utf8ByteSize

/-- `ps` are the documents below `l`. -/
structure Lists (s : DirectorySource) (d : Disk) (l : Location) (ps : List Path) : Prop where
  exact : ∀ p, p ∈ ps ↔ ∃ ms b, ms ≠ [] ∧ p = relativePath ms ∧ d.node? (l ++ ms) = some (.file b) ∧
    (s.root / p).extension? = some s.extension
  increasing : ps.Pairwise fun p q => p.octets < q.octets
  nodup : ps.Nodup
  content : ∀ ms b, ms ≠ [] → d.node? (l ++ ms) = some (.file b) → s.read d (relativePath ms) =
    if pathLimit < (s.root / relativePath ms).text.utf8ByteSize then
      .error (.io (s.root / relativePath ms) (.disk .nameTooLong))
    else .ok b

theorem octets_lt {ns : List String} (hms : ms ≠ []) (hns : ns ≠ []) (h : ∀ n ∈ ms, IsName n)
    (h' : ∀ n ∈ ns, IsName n) (hlt : ms < ns) : (relativePath ms).octets < (relativePath ns).octets := by
  rw [relativePath_octets hms h, relativePath_octets hns h']
  exact List.map_lt (fun _ _ => encode_lt) hlt

theorem documents_increasing (hd : d.Named) (l : Location) :
    ((d.below l).filterMap s.document?).Pairwise fun p q => p.octets < q.octets := by
  refine List.pairwise_filterMap.2 ((d.entriesBelow_increasing _ l).imp_of_mem ?_)
  intro e e' he he' hlt p hp p' hp'
  have hne := (entriesBelow_found he).1
  have hne' := (entriesBelow_found he').1
  rw [((document?_eq_some hne (hd.below he)).1 hp).1, ((document?_eq_some hne' (hd.below he')).1 hp').1]
  exact octets_lt hne hne' (hd.below he) (hd.below he') hlt

theorem nodup_of_increasing (h : ps.Pairwise fun p q => p.octets < q.octets) : ps.Nodup := by
  refine h.imp ?_
  rintro p _ hlt rfl
  exact List.lt_irrefl _ hlt

section

variable (ht : d.IsTree) (hs : d.Storable) (hl : d.locate s.root = .ok l) (hn : d.node? l = some .directory)

include ht hs in
theorem below_entries {e : List String × Node} (he : e ∈ d.below l) : e.1 ≠ [] ∧ ∀ n ∈ e.1, IsEntry n := by
  obtain ⟨hne, hnode⟩ := (mem_below ht).1 he
  exact ⟨hne, hs.entries hnode⟩

include ht hs hl in
theorem read_below (hne : ms ≠ []) (hfile : d.node? (l ++ ms) = some (.file b)) : s.read d (relativePath ms) =
    if pathLimit < (s.root / relativePath ms).text.utf8ByteSize then
      .error (.io (s.root / relativePath ms) (.disk .nameTooLong))
    else .ok b := by
  have hentries := hs.entries hfile
  have hadmit := admit_below (locate_ok hl).1 hne hentries
  rw [read, display, Disk.read]
  by_cases hlong : pathLimit < (s.root / relativePath ms).text.utf8ByteSize
  · rw [if_pos hlong] at hadmit ⊢
    have hlocate : d.locate (s.root / relativePath ms) = .error .nameTooLong := by
      simp only [locate, hadmit]
    rw [find_of_locate_error hlocate]
    rfl
  · rw [if_neg hlong] at hadmit ⊢
    rw [find_ok.2 ⟨_, locate_below ht hl hne hentries hfile hadmit, hfile⟩]
    rfl

include ht hs hl hn in
theorem paths_lists (h : ∀ ms, ¬ s.Unopened d l ms) : ∃ ps, s.paths d = .ok ps ∧ s.Lists d l ps := by
  have hopened : (d.below l).findSome? s.unopened? = none := by
    rw [List.findSome?_eq_none_iff]
    intro e he
    obtain ⟨hne, hentries⟩ := below_entries ht hs he
    refine Option.eq_none_iff_forall_ne_some.2 fun f hf => ?_
    obtain ⟨hdir, hlong, -⟩ := (unopened?_eq_some (locate_ok hl).1 hne hentries).1 hf
    exact h e.1 ⟨hne, hdir ▸ ((mem_below ht).1 he).2, hlong⟩
  have hpaths : s.paths d = .ok ((d.below l).filterMap s.document?) := by
    rw [paths_of_directory hl hn, documents, hopened]
  have hincreasing := documents_increasing (s := s) hs.named l
  refine ⟨_, hpaths, fun p => ?_, hincreasing, nodup_of_increasing hincreasing, fun ms b hne =>
    read_below ht hs hl hne⟩
  rw [List.mem_filterMap]
  constructor
  · rintro ⟨⟨ms, x⟩, he, hp⟩
    obtain ⟨hne, hnode⟩ := (mem_below ht).1 he
    obtain ⟨rfl, ⟨b, rfl⟩, hext⟩ := (document?_eq_some hne (hs.named.below he)).1 hp
    exact ⟨ms, b, hne, rfl, hnode, hext⟩
  · rintro ⟨ms, b, hne, rfl, hfile, hext⟩
    have he : (ms, Node.file b) ∈ d.below l := (mem_below ht).2 ⟨hne, hfile⟩
    exact ⟨_, he, (document?_eq_some hne (hs.named.below he)).2 ⟨rfl, ⟨b, rfl⟩, hext⟩⟩

include ht hs hl hn in
/-- The first directory that is not opened is what the enumeration fails with. -/
theorem paths_fails (h : ∃ ms, s.Unopened d l ms) : ∃ ms, s.Unopened d l ms ∧
    (∀ ns, s.Unopened d l ns → ns = ms ∨ (relativePath ms).octets < (relativePath ns).octets) ∧
    s.paths d = .error (unvisited (s.root / relativePath ms) .nameTooLong) := by
  have hfound : ∀ {ns}, s.Unopened d l ns → (ns, Node.directory) ∈ d.below l ∧
      s.unopened? (ns, .directory) = some (unvisited (s.root / relativePath ns) .nameTooLong) := by
    rintro ns ⟨hne, hdir, hlong⟩
    exact ⟨(mem_below ht).2 ⟨hne, hdir⟩,
      (unopened?_eq_some (locate_ok hl).1 hne (hs.entries hdir)).2 ⟨rfl, hlong, rfl⟩⟩
  cases hf : (d.below l).findSome? s.unopened? with
  | none =>
      obtain ⟨ms, hms⟩ := h
      obtain ⟨hmem, hsome⟩ := hfound hms
      rw [List.findSome?_eq_none_iff.1 hf _ hmem] at hsome
      cases hsome
  | some f =>
      obtain ⟨before, ⟨ms, x⟩, rest, hsplit, hx, hbefore⟩ := List.findSome?_eq_some_iff.1 hf
      have hmem : (ms, x) ∈ d.below l := by simp [hsplit]
      obtain ⟨hne, hentries⟩ := below_entries ht hs hmem
      obtain ⟨rfl, hlong, rfl⟩ := (unopened?_eq_some (locate_ok hl).1 hne hentries).1 hx
      have hms : s.Unopened d l ms := ⟨hne, ((mem_below ht).1 hmem).2, hlong⟩
      refine ⟨ms, hms, fun ns hns => ?_, ?_⟩
      · obtain ⟨hmem', hsome⟩ := hfound hns
        rw [hsplit, List.mem_append, List.mem_cons] at hmem'
        rcases hmem' with hmem' | he | hmem'
        · rw [hbefore _ hmem'] at hsome
          cases hsome
        · exact .inl (congrArg Prod.fst he)
        · have horder := d.entriesBelow_increasing d.depth l
          rw [← Disk.below, hsplit, List.pairwise_append, List.pairwise_cons] at horder
          have hlt := horder.2.1.1 _ hmem'
          exact .inr (octets_lt hne hns.1 (fun n hn => (hentries n hn).toIsName)
            (fun n hn => (hs.entries hns.2.1 n hn).toIsName) hlt)
      · rw [paths_of_directory hl hn, documents, hf]

end

theorem paths_relisted (h : d.Relisted d') : s.paths d' = s.paths d := by
  simp only [paths, h.find, h.locate, h.below]

/-- Below a directory of a tree all documents are listed in order, however the tree is listed, unless a
directory has too long a path: then the first such directory fails the enumeration. -/
theorem paths_exact (root : Path) (ext : String) (d : Disk) {l : Location} (ht : d.IsTree) (hs : d.Storable)
    (hl : d.locate root = .ok l) (hn : d.node? l = some .directory) :
    ((∀ ms, ¬ (of root ext).Unopened d l ms) →
      ∃ ps, (of root ext).paths d = .ok ps ∧ (of root ext).Lists d l ps) ∧
    ((∃ ms, (of root ext).Unopened d l ms) → ∃ ms, (of root ext).Unopened d l ms ∧
      (∀ ns, (of root ext).Unopened d l ns → ns = ms ∨ (relativePath ms).octets < (relativePath ns).octets) ∧
      (of root ext).paths d = .error (unvisited (root / relativePath ms) .nameTooLong)) ∧
    ∀ d', d.Relisted d' → (of root ext).paths d' = (of root ext).paths d :=
  ⟨paths_lists ht hs hl hn, paths_fails ht hs hl hn, fun _ h => paths_relisted h⟩

def nested : Disk where
  workingDirectory := []
  nodes := [(["in"], .directory), (["in", "a.json"], .file [1]), (["in", "a"], .directory),
    (["in", "a", "b.json"], .file [2])]
  nodup := by decide

def nestedBackwards : Disk := { nested with nodes := nested.nodes.reverse, nodup := by decide }

theorem nested_opened (ms : List String) : ¬ (of "in" ".json").Unopened nested ["in"] ms := by
  rintro ⟨hne, hdir, hlong⟩
  have hms := (node?_eq_some (by simp)).1 hdir
  simp only [nested, List.mem_cons, Prod.mk.injEq, List.cons_append, List.nil_append] at hms
  simp [hne] at hms
  subst hms
  exact absurd hlong (by decide +kernel)

theorem nested_exact : nested.IsTree ∧ nested.Storable ∧ nested.locate "in" = .ok ["in"] ∧
    nested.node? ["in"] = some .directory ∧ nested.Relisted nestedBackwards ∧
    ∃ ps, (of "in" ".json").paths nested = .ok ps ∧ (of "in" ".json").paths nestedBackwards = .ok ps ∧
      relativePath ["a", "b.json"] ∈ ps ∧ relativePath ["a.json"] ∈ ps ∧ relativePath ["a"] ∉ ps ∧
      (relativePath ["a", "b.json"]).octets < (relativePath ["a.json"]).octets ∧
      (of "in" ".json").read nested (relativePath ["a", "b.json"]) = .ok [2] := by
  have ht : nested.IsTree := by decide +kernel
  have hs : nested.Storable := by decide +kernel
  have hl : nested.locate "in" = .ok ["in"] := by decide +kernel
  have hn : nested.node? ["in"] = some .directory := by decide +kernel
  have hlisted : nested.Relisted nestedBackwards := ⟨rfl, List.reverse_perm _⟩
  obtain ⟨hlists, -, hrelisted⟩ := paths_exact "in" ".json" nested ht hs hl hn
  obtain ⟨ps, hps, h⟩ := hlists nested_opened
  refine ⟨ht, hs, hl, hn, hlisted, ps, hps, (hrelisted _ hlisted).trans hps, ?_, ?_, ?_, by decide +kernel, ?_⟩
  · exact (h.exact _).2 ⟨["a", "b.json"], [2], by simp, rfl, by decide +kernel, by decide +kernel⟩
  · exact (h.exact _).2 ⟨["a.json"], [1], by simp, rfl, by decide +kernel, by decide +kernel⟩
  · intro hmem
    obtain ⟨-, -, -, -, -, hext⟩ := (h.exact _).1 hmem
    exact absurd hext (by decide +kernel)
  · rw [h.content ["a", "b.json"] [2] (by simp) (by decide +kernel)]
    decide +kernel

def padded : Nat → String
  | 0 => "in"
  | n + 1 => padded n ++ "/."

theorem padded_size (n : Nat) : (padded n).utf8ByteSize = 2 + 2 * n := by
  induction n with
  | zero => rfl
  | succ n ih =>
      have hstep : ("/." : String).utf8ByteSize = 2 := rfl
      rw [padded, String.utf8ByteSize_append, ih, hstep]
      omega

theorem padded_ne (n : Nat) : padded n ≠ "" := by
  cases n with
  | zero => decide
  | succ n => simp [padded]

theorem padded_nul (n : Nat) : '\x00' ∉ (padded n).toList := by
  induction n with
  | zero => decide
  | succ n ih => simpa [padded] using ih

theorem padded_slash (n : Nat) : endsInSlash ⟨padded n⟩ = false := by
  cases n with
  | zero => rfl
  | succ n => simp [endsInSlash, padded]

theorem padded_segments (n : Nat) : segments ⟨padded n⟩ = "in" :: List.replicate n "." := by
  induction n with
  | zero => decide +kernel
  | succ n ih =>
      have hstep : (padded (n + 1)).toList = (padded n).toList ++ '/' :: ['.'] := by simp [padded]
      have hdot : ((['.'].splitOn '/').filter (· ≠ [])).map String.ofList = ["."] := by decide +kernel
      rw [segments, hstep, List.splitOn_append_cons_self, List.filter_append, List.map_append, hdot,
        List.replicate_succ', ← List.cons_append, ← ih, segments]

theorem padded_below (n : Nat) {m : String} (hm : IsName m) :
    (⟨padded n⟩ / relativePath [m] : Path).text.utf8ByteSize = 3 + 2 * n + m.utf8ByteSize := by
  have hrel : (relativePath [m]).isAbsolute = false := relativePath_relative (by simp) (by simpa using hm)
  have hopen : ¬ (padded n = "" ∨ (padded n).toList.getLast? = some '/') :=
    not_or_intro (padded_ne n) (of_decide_eq_false (padded_slash n))
  have hjoin : (⟨padded n⟩ / relativePath [m] : Path) = ⟨padded n ++ "/" ++ m⟩ := by
    have hdef : (⟨padded n⟩ / relativePath [m] : Path) = Path.join ⟨padded n⟩ (relativePath [m]) := rfl
    rw [hdef, Path.join, hrel, if_neg Bool.false_ne_true, if_neg hopen, relativePath, String.intercalate_singleton]
  have hslash : ("/" : String).utf8ByteSize = 1 := rfl
  rw [hjoin, String.utf8ByteSize_append, String.utf8ByteSize_append, padded_size, hslash]
  omega

def deep : Disk where
  workingDirectory := []
  nodes := [(["in"], .directory), (["in", "a.json"], .file (encode "\x7b\x7d")), (["in", "subdirectory"], .directory)]
  nodup := by decide

theorem deep_locate {n : Nat} (h : 2 + 2 * n ≤ pathLimit) : deep.locate ⟨padded n⟩ = .ok ["in"] := by
  have hadmit : admit? ⟨padded n⟩ = none := by
    rw [admit?, if_neg (padded_nul n), if_neg (padded_ne n), padded_size, if_neg (by omega)]
  have hstart : deep.start ⟨padded n⟩ = [] := by
    rw [start]
    split <;> rfl
  rw [locate_admitted hadmit, hstart, padded_slash, padded_segments, if_neg Bool.false_ne_true, List.append_nil,
    follow_cons]
  refine ⟨rfl, ["in"], rfl, follow_here (by decide) fun s hs => (List.mem_replicate.1 hs).2⟩

theorem deep_unopened {n : Nat} (h : pathLimit < 15 + 2 * n) {ms : List String} :
    (of ⟨padded n⟩ "json").Unopened deep ["in"] ms ↔ ms = ["subdirectory"] := by
  constructor
  · rintro ⟨hne, hdir, -⟩
    have hms := (node?_eq_some (by simp)).1 hdir
    simpa [deep, hne] using hms
  · rintro rfl
    have hsize : ("subdirectory" : String).utf8ByteSize = 12 := by decide
    refine ⟨by simp, by decide +kernel, ?_⟩
    rw [of, padded_below n (by decide), hsize]
    omega

/-- With two thousand dots in the path of the root the directory cannot be opened. The document could be
read, but is not listed. -/
theorem deep_fails : deep.IsTree ∧ deep.Storable ∧ deep.find ⟨padded 2042⟩ = .ok .directory ∧
    (⟨padded 2042⟩ / relativePath ["a.json"] : Path).extension? = some "json" ∧
    (of ⟨padded 2042⟩ "json").read deep (relativePath ["a.json"]) = .ok (encode "\x7b\x7d") ∧
    (of ⟨padded 2042⟩ "json").paths deep =
      .error (unvisited (⟨padded 2042⟩ / relativePath ["subdirectory"]) .nameTooLong) := by
  have ht : deep.IsTree := by decide +kernel
  have hs : deep.Storable := by decide +kernel
  have hl : deep.locate ⟨padded 2042⟩ = .ok ["in"] := deep_locate (by decide)
  have hn : deep.node? ["in"] = some .directory := by decide +kernel
  have hlong : pathLimit < 15 + 2 * 2042 := by decide
  have hext : (⟨padded 2042⟩ / relativePath ["a.json"] : Path).extension? = some "json" :=
    (extension?_below _ (by decide : ∀ m ∈ [] ++ ["a.json"], IsName m)).trans (by decide +kernel)
  have hread : (of ⟨padded 2042⟩ "json").read deep (relativePath ["a.json"]) = .ok (encode "\x7b\x7d") := by
    have hfile : deep.node? (["in"] ++ ["a.json"]) = some (.file (encode "\x7b\x7d")) := by decide +kernel
    have hsize : ("a.json" : String).utf8ByteSize = 6 := by decide
    rw [read_below ht hs (s := of ⟨padded 2042⟩ "json") hl (by simp) hfile, of, padded_below _ (by decide), hsize,
      if_neg (by decide)]
  obtain ⟨ms, hms, -, hfails⟩ := paths_fails ht hs (s := of ⟨padded 2042⟩ "json") hl hn
    ⟨["subdirectory"], (deep_unopened hlong).2 rfl⟩
  rw [(deep_unopened hlong).1 hms] at hfails
  exact ⟨ht, hs, find_ok.2 ⟨_, hl, hn⟩, hext, hread, hfails⟩

end DirectorySource

end EntityGen
