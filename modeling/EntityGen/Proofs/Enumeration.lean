import EntityGen.Proofs.Disk.Walk
import EntityGen.Proofs.Mirroring
import EntityGen.Source
import Mathlib.Data.List.Basic

namespace EntityGen

open Disk (IsName)

namespace Path

variable {p q : Path} {n e : String}

theorem fileName?_of_extension (h : p.extension? = some e) : ∃ n, p.fileName? = some n := by
  rw [extension?] at h
  obtain ⟨n, hn, -⟩ := Option.bind_eq_some_iff.1 h
  exact ⟨n, hn⟩

theorem extension?_congr (h : p.fileName? = q.fileName?) : p.extension? = q.extension? := by
  rw [extension?, extension?, h]

theorem locate_fileName {d : Disk} {l : Location} (hn : p.fileName? = some n) (h : d.locate p = .ok l) :
    l.getLast? = some n := by
  obtain ⟨ps, idle, hp, hcounts, hup, hidle⟩ := fileName?_some hn
  obtain ⟨-, h⟩ := Disk.locate_ok h
  obtain ⟨hname, hdot⟩ := named_piece hcounts
  rw [String.ofList_toList] at hname hdot
  have hsegments : Disk.segments p = (p.lead.segments ++ named ps) ++ n :: named idle := by
    rw [segments_eq, hp, ← List.singleton_append, named_append, named_append, hname, List.append_assoc]
    rfl
  rw [hsegments, List.append_assoc, List.cons_append, Disk.follow_append_ok] at h
  obtain ⟨k, -, h⟩ := h
  obtain ⟨-, m, hm, h⟩ := (Disk.follow_cons n).1 h
  have hdots : n ≠ ".." := fun he => hup (by rw [he]; rfl)
  rw [Disk.step, if_neg hdot, if_neg hdots] at hm
  split at hm
  · cases hm
  · cases hm
    have hhere : Here (named idle ++ if Disk.endsInSlash p then ["."] else []) := by
      refine (named_idle hidle).append fun s hs => ?_
      split at hs
      · exact List.mem_singleton.1 hs
      · cases hs
    have hup : ".." ∉ named idle ++ if Disk.endsInSlash p then ["."] else [] :=
      fun hm => absurd (hhere _ hm) (by decide)
    rw [Disk.follow_plain hup h, Disk.steps_of_here hhere, List.append_nil, List.getLast?_concat]

theorem extension?_of_place {d : Disk} {l : Location} (hp : p.fileName? ≠ none) (hq : q.fileName? ≠ none)
    (h : d.locate p = .ok l) (h' : d.locate q = .ok l) : p.extension? = q.extension? := by
  obtain ⟨n, hn⟩ := Option.ne_none_iff_exists'.1 hp
  obtain ⟨m, hm⟩ := Option.ne_none_iff_exists'.1 hq
  apply extension?_congr
  rw [hn, hm, ← locate_fileName hn h, locate_fileName hm h']

end Path

theorem Disk.IsName.counts {s : String} (h : IsName s) : Path.isIdle s.toList = false ∧ s.toList ≠ ['.', '.'] := by
  obtain ⟨hne, -, hdots⟩ := h
  simp only [Disk.isDots, Bool.or_eq_false_iff, beq_eq_false_iff_ne, ne_eq] at hdots
  have hempty : s.toList ≠ [] := fun hs => hne (String.toList_eq_nil_iff.1 hs)
  have hdot : s.toList ≠ ['.'] := fun hs => hdots.1 (String.toList_injective hs)
  exact ⟨by simp [Path.isIdle, hempty, hdot], fun hs => hdots.2 (String.toList_injective hs)⟩

namespace DirectorySource

variable {s : DirectorySource} {d : Disk} {names : List String} {n : String} {p : Path} {ps : List Path}

theorem relativePath_eq (names : List String) :
    relativePath names = Path.ofPieces .none (names.map String.toList) := by
  refine congrArg Path.mk (String.toList_injective ?_)
  rw [String.toList_intercalate]
  exact String.toList_ofList.symm

theorem relativePath_spelled (hne : names ≠ []) (hslash : ∀ n ∈ names, '/' ∉ n.toList)
    (hcounts : ∀ n ∈ names, Path.isIdle n.toList = false) :
    (relativePath names).lead = .none ∧ (relativePath names).pieces = names.map String.toList := by
  have hw : Path.Whole (names.map String.toList) := by
    intro x hx
    obtain ⟨n, hn, rfl⟩ := List.mem_map.1 hx
    exact hslash n hn
  have hf : Path.Fits .none (names.map String.toList) := by
    intro x hx
    obtain ⟨n, hn, rfl⟩ := List.mem_map.1 (List.mem_of_mem_head? hx)
    have hcounts := hcounts n hn
    refine ⟨fun hdot => ?_, fun hnil => ?_⟩
    · rw [hdot] at hcounts
      cases hcounts
    · rw [hnil] at hcounts
      cases hcounts
  have hmap : names.map String.toList ≠ [] := by simpa using hne
  rw [relativePath_eq]
  refine ⟨Path.lead_ofPieces hf hw, ?_⟩
  rw [Path.pieces_ofPieces hf hw, if_neg hmap]

theorem relativePath_pieces (hne : names ≠ []) (h : ∀ n ∈ names, IsName n) :
    (relativePath names).lead = .none ∧ (relativePath names).pieces = names.map String.toList :=
  relativePath_spelled hne (fun n hn => (h n hn).slash) fun n hn => (h n hn).counts.1

theorem relativePath_tidy (hne : names ≠ []) (h : ∀ n ∈ names, IsName n) : (relativePath names).Tidy := by
  obtain ⟨hlead, hpieces⟩ := relativePath_pieces hne h
  refine ⟨hlead, fun x hx => ?_⟩
  obtain ⟨n, hn, rfl⟩ := List.mem_map.1 (hpieces ▸ hx)
  exact (h n hn).counts.1

theorem paths_cases (h : s.paths d = .ok ps) (hp : p ∈ ps) :
    (p = ⟨""⟩ ∧ s.root.extension? = some s.extension ∧ ∃ b, d.find s.root = .ok (.file b)) ∨
    ∃ l names n b, d.locate s.root = .ok l ∧ (names ++ [n], .file b) ∈ d.below l ∧ s.hasExtension n = true ∧
      p = relativePath (names ++ [n]) := by
  simp only [paths] at h
  split at h
  · cases h
  next hdir =>
    obtain ⟨l, hl, -⟩ := Disk.find_ok.1 hdir
    rw [hl] at h
    simp only [documents] at h
    split at h
    · cases h
    · cases h
      obtain ⟨⟨names, node⟩, he, hdoc⟩ := List.mem_filterMap.1 hp
      simp only [document?] at hdoc
      split at hdoc
      next b =>
        split at hdoc
        next hlast =>
          obtain ⟨n, hn, hext⟩ := (Option.any_eq_true _ _).1 hlast
          obtain ⟨init, rfl⟩ := List.getLast?_eq_some_iff.1 hn
          cases hdoc
          exact .inr ⟨l, init, n, b, hl, he, hext, rfl⟩
        · cases hdoc
      · cases hdoc
  next b hfile =>
    cases h
    split at hp
    next hext => exact .inl ⟨List.mem_singleton.1 hp, hext, b, hfile⟩
    · cases hp
  · cases h
    cases hp

theorem paths_of_files {l : Location} {ns : List String} (hfind : d.find s.root = .ok .directory)
    (hl : d.locate s.root = .ok l) (hdepth : d.depth ≠ 0) (hns : d.names l = ns)
    (hfiles : ∀ n ∈ ns, ∃ b, d.node? (l ++ [n]) = some (.file b)) :
    s.paths d = .ok ((ns.filter s.hasExtension).map fun n => relativePath [n]) := by
  subst hns
  have hbelow : (((d.locate s.root).map d.below).toOption.getD []) = d.below l := by rw [hl]; rfl
  have hopened : (d.below l).findSome? s.unopened? = none := by
    rw [List.findSome?_eq_none_iff, Disk.below_of_files hdepth hfiles]
    intro e he
    obtain ⟨n, hn, hmap⟩ := List.mem_filterMap.1 he
    obtain ⟨b, hb⟩ := hfiles n hn
    rw [hb] at hmap
    cases hmap
    rfl
  simp only [paths, hfind]
  rw [hbelow, documents, hopened, Disk.below_of_files hdepth hfiles, List.filterMap_filterMap,
    ← List.filterMap_eq_filter, List.map_filterMap]
  refine congrArg Except.ok (List.filterMap_congr fun n hn => ?_)
  obtain ⟨b, hb⟩ := hfiles n hn
  rw [hb]
  have hdocument : s.document? ([n], .file b) = if s.hasExtension n then some (relativePath [n]) else none := rfl
  rw [Option.map_some, Option.bind_some, hdocument, Option.guard]
  by_cases hext : s.hasExtension n = true
  · rw [if_pos hext, if_pos hext, Option.map_some]
  · rw [if_neg hext, if_neg hext, Option.map_none]

/-- The file that a document is read from; the root itself if that is a file. -/
def file (s : DirectorySource) (p : Path) : Path := if p.text = "" then s.root else s.root / p

theorem extension?_below (r : Path) (h : ∀ m ∈ names ++ [n], IsName m) :
    (r / relativePath (names ++ [n])).extension? = (Path.splitExtension n.toList).2.map String.ofList := by
  obtain ⟨hlead, hpieces⟩ := relativePath_pieces (by simp) h
  obtain ⟨l, base, hjoin⟩ := Path.join_pieces r
  have hlast : (r / relativePath (names ++ [n])).pieces = (base ++ names.map String.toList) ++ [n.toList] := by
    rw [(hjoin _ hlead).2, hpieces, List.map_append, List.map_singleton, List.append_assoc]
  obtain ⟨hcounts, hup⟩ := (h n (by simp)).counts
  have hname := Path.fileName?_eq hlast hcounts (by simp)
  rw [if_neg hup, String.ofList_toList] at hname
  exact Path.extension?_name hname

theorem file_extension (hd : d.Named) (h : s.paths d = .ok ps) (hp : p ∈ ps) :
    (s.file p).extension? = some s.extension := by
  rcases paths_cases h hp with ⟨rfl, hext, -⟩ | ⟨l, names, n, b, -, he, hext, rfl⟩
  · rw [file, if_pos rfl]
    exact hext
  · have hnames := hd.below he
    rw [file, if_neg (relativePath_tidy (by simp) hnames).text_ne, extension?_below s.root hnames,
      of_decide_eq_true hext, Option.map_some, String.ofList_toList]

end DirectorySource

end EntityGen
