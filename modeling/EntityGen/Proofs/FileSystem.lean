import EntityGen.Emitter
import EntityGen.Proofs.Spelling

namespace EntityGen

open Text.Utf8 (Bytes)

/-- What a file system answers and does is what its image under `f` answers and does. -/
structure FileSystem.Agrees {σ τ : Type} [FileSystem σ] [FileSystem τ] (f : σ → τ) : Prop where
  readHead d p count : readHead (f d) p count = readHead d p count
  isDirectory d p : isDirectory (f d) p = isDirectory d p
  makeDirectory d p : makeDirectory (f d) p = (makeDirectory d p).map f
  write d p content : write (f d) p content = (write d p content).map f

namespace FileSystem.Agrees

variable {σ τ : Type} [FileSystem σ] [FileSystem τ] {f : σ → τ} (h : Agrees f) (d : σ) (p : Path)
include h

theorem ensureDirectory :
    FileSystem.ensureDirectory (f d) p = (FileSystem.ensureDirectory d p).map f id := by
  simp only [FileSystem.ensureDirectory, h.makeDirectory, h.isDirectory]
  cases FileSystem.makeDirectory d p <;> rfl

theorem ensureChain (ps : List Path) :
    FileSystem.ensureChain (f d) ps = (FileSystem.ensureChain d ps).map f id := by
  induction ps generalizing d with
  | nil => rfl
  | cons p outer ih =>
      simp only [FileSystem.ensureChain, h.makeDirectory, h.ensureDirectory, ih]
      cases FileSystem.makeDirectory d p with
      | ok d' => rfl
      | error g =>
          cases g with
          | notFound =>
              obtain ⟨d', r⟩ := FileSystem.ensureChain d outer
              cases r with
              | ok _ => exact h.ensureDirectory d' p
              | error _ => rfl
          | _ => rfl

theorem overwritable (marker : String) :
    FileSystem.overwritable (f d) p marker = FileSystem.overwritable d p marker := by
  simp only [FileSystem.overwritable, h.readHead]

theorem ensureParent :
    FileSystem.ensureParent (f d) p = (FileSystem.ensureParent d p).map f id := by
  simp only [FileSystem.ensureParent, FileSystem.ensureDirectories, h.ensureChain]
  cases p.parent? with
  | none => rfl
  | some q => dsimp only; split <;> rfl

end FileSystem.Agrees

namespace Disk

variable {d : Disk} {p : Path} {k : Location} {s : String}

theorem follow_from (w l : Location) (ss : List String) :
    { d with workingDirectory := w }.follow l ss = d.follow l ss := by
  induction ss generalizing l with
  | nil => rfl
  | cons s ss ih =>
      have hn : { d with workingDirectory := w }.node? l = d.node? l := rfl
      simp only [follow, hn, ih]

def slash (p : Path) : String := if endsInSlash p then "/" else ""

theorem text_slash (p : Path) : ∃ q : Path, p.text = q.text ++ slash p ∧ segments p = segments q := by
  by_cases h : endsInSlash p = true
  · obtain ⟨cs, hcs⟩ := List.getLast?_eq_some_iff.1 (of_decide_eq_true h)
    refine ⟨⟨.ofList cs⟩, ?_, ?_⟩
    · apply String.toList_injective
      simp [slash, h, hcs]
    · simp [segments, hcs, List.splitOn_append_cons_self]
  · exact ⟨p, by simp [slash, h], rfl⟩

theorem segment_within (h : s ∈ segments p) : s.toList <:+: p.text.toList := by
  obtain ⟨x, hx, rfl⟩ := List.mem_map.1 h
  have hpieces : ['/'].intercalate (p.text.toList.splitOn '/') = p.text.toList := List.intercalate_splitOn '/'
  rw [String.toList_ofList, ← hpieces]
  exact Path.infix_intercalate (List.mem_filter.1 hx).1

theorem segment_octets (h : s ∈ segments p) :
    (s ++ slash p).utf8ByteSize ≤ p.text.utf8ByteSize := by
  obtain ⟨q, htext, hs⟩ := text_slash p
  have hle := Text.size_within (segment_within (hs ▸ h))
  rw [htext, String.utf8ByteSize_append, String.utf8ByteSize_append]
  omega

theorem eq_slash {cs : List Char} (h : ∀ x ∈ cs.splitOn '/', x = []) : ∀ c ∈ cs, c = '/' := by
  induction cs with
  | nil => simp
  | cons c cs ih =>
      rw [List.splitOn_cons_eq_if_modifyHead] at h
      split at h
      next hc =>
        rw [List.forall_mem_cons]
        exact ⟨beq_iff_eq.1 hc, ih fun x hx => h x (List.mem_cons_of_mem _ hx)⟩
      · cases hs : cs.splitOn '/' with
        | nil => exact absurd hs (List.splitOn_ne_nil _ _)
        | cons x xs =>
            rw [hs] at h
            cases h _ List.mem_cons_self

theorem slash_of_segments (hs : segments p = []) (hp : p.text ≠ "") : endsInSlash p = true := by
  have hempty : ∀ x ∈ p.text.toList.splitOn '/', x = [] := by
    simpa [segments, List.filter_eq_nil_iff] using hs
  cases hc : p.text.toList.getLast? with
  | none => exact absurd (String.toList_eq_nil_iff.1 (List.getLast?_eq_none_iff.1 hc)) hp
  | some c =>
      rw [eq_slash hempty c (List.mem_of_getLast? hc)] at hc
      exact decide_eq_true hc

/-- The last segment of a path, `.` if it has none. -/
def lastSegment (p : Path) : String := (segments p).getLast?.getD "."

theorem segment_whole (h : s ∈ segments p) : s ≠ "" ∧ '/' ∉ s.toList := by
  obtain ⟨x, hx, rfl⟩ := List.mem_map.1 h
  obtain ⟨hx, hne⟩ := List.mem_filter.1 hx
  refine ⟨fun he => ?_, ?_⟩
  · simp_all
  · rw [String.toList_ofList]
    exact Text.not_mem_piece hx

theorem lastSegment_cases (p : Path) : lastSegment p = "." ∨ lastSegment p ∈ segments p := by
  rw [lastSegment]
  cases h : (segments p).getLast? with
  | none => exact .inl rfl
  | some s => exact .inr (List.mem_of_getLast? h)

theorem lastSegment_whole (p : Path) : lastSegment p ≠ "" ∧ '/' ∉ (lastSegment p).toList := by
  rcases lastSegment_cases p with h | h
  · rw [h]
    exact ⟨by decide, by decide⟩
  · exact segment_whole h

/-- The last segment of a path as a path of its own. -/
def lastName (p : Path) : Path := ⟨lastSegment p ++ slash p⟩

theorem lastName_segments (p : Path) : segments (lastName p) = [lastSegment p] := by
  obtain ⟨hne, hwhole⟩ := lastSegment_whole p
  have hone : (lastSegment p).toList.splitOn '/' = [(lastSegment p).toList] :=
    List.splitOn_eq_singleton hwhole
  have hslash : ("/" : String).toList = '/' :: [] := rfl
  rw [segments, lastName, slash, String.toList_append]
  split
  · rw [hslash, List.splitOn_append_cons_self, hone]
    simp [hne]
  · simp [hone, hne]

theorem lastName_slash (p : Path) : endsInSlash (lastName p) = endsInSlash p := by
  rw [endsInSlash, lastName, slash, String.toList_append]
  split
  next h => simp [h]
  next h =>
    rw [Bool.not_eq_true] at h
    rw [h, decide_eq_false_iff_not, String.toList_empty, List.append_nil]
    exact fun hl => (lastSegment_whole p).2 (List.mem_of_getLast? hl)

theorem lastName_relative (p : Path) : (lastName p).isAbsolute = false := by
  obtain ⟨hne, hwhole⟩ := lastSegment_whole p
  have hhead : ∀ cs, (lastName p).text.toList ≠ '/' :: cs := by
    intro cs h
    rw [lastName, String.toList_append] at h
    cases hl : (lastSegment p).toList with
    | nil => exact hne (String.toList_eq_nil_iff.1 hl)
    | cons c rest =>
        rw [hl, List.cons_append] at h
        cases h
        exact hwhole (by simp [hl])
  rw [Path.isAbsolute, decide_eq_false_iff_not, Path.lead]
  unfold Path.cut
  split
  next h => exact absurd h (hhead _)
  all_goals exact Path.Lead.noConfusion

theorem lastName_admitted (h : admit? p = none) : admit? (lastName p) = none := by
  obtain ⟨hnul, -, hlong⟩ := admitted_iff.1 h
  have hslash : '\x00' ∉ (slash p).toList ∧ (slash p).utf8ByteSize ≤ 1 := by
    rw [slash]
    split <;> decide
  have hne : lastSegment p ++ slash p ≠ "" := fun h =>
    (lastSegment_whole p).1 (String.append_eq_empty_iff.1 h).1
  rw [admitted_iff, lastName, String.toList_append, List.mem_append, not_or]
  rcases lastSegment_cases p with hl | hl
  · have hdot : ("." : String).utf8ByteSize = 1 := rfl
    rw [hl] at hne ⊢
    rw [String.utf8ByteSize_append, hdot]
    exact ⟨⟨by decide, hslash.1⟩, hne, by rw [pathLimit]; omega⟩
  · exact ⟨⟨fun hm => hnul ((segment_within hl).subset hm), hslash.1⟩, hne,
      Nat.le_trans (segment_octets hl) hlong⟩

end Disk

namespace Linked

variable {d : Disk} {p : Path} {l : Location} {f : Disk.Fault}

def unlinked (d : Disk) : Linked := ⟨d, []⟩

theorem unlinked_target (l : Location) : (unlinked d).target l = l := rfl

theorem unlinked_follow (l : Location) (ss : List String) : (unlinked d).follow l ss = d.follow l ss := by
  induction ss generalizing l with
  | nil => rfl
  | cons s ss ih =>
      rw [← List.singleton_append, Disk.follow_append, ← funext ih]
      have hd : (unlinked d).disk = d := rfl
      rw [follow, List.singleton_append, List.foldlM_cons, hd]
      cases d.follow l [s] <;> rfl

/-- The place of a path is told by where its last segment is looked up. -/
theorem unlinked_place_cases (d : Disk) (p : Path) :
    (∃ f, (unlinked d).place p = .error f ∧ d.slot p = .error f ∧ d.find p = .error f) ∨
    Disk.admit? p = none ∧ ∃ k, d.follow (d.start p) (Disk.segments p).dropLast = .ok k ∧
      (unlinked d).place p = .ok (k ++ [Disk.lastSegment p]) := by
  simp only [place, unlinked_follow]
  cases ha : Disk.admit? p with
  | some f =>
      exact .inl ⟨f, rfl, by simp only [Disk.slot, ha],
        Disk.find_of_locate_error (by simp only [Disk.locate, ha])⟩
  | none =>
      have hs : (unlinked d).disk.start p = d.start p := rfl
      dsimp only
      rw [hs]
      cases hk : d.follow (d.start p) (Disk.segments p).dropLast with
      | ok k => exact .inr ⟨rfl, k, rfl, rfl⟩
      | error f =>
          refine .inl ⟨f, rfl, by simp only [Disk.slot, ha, hk], Disk.find_of_locate_error ?_⟩
          rw [Disk.locate_last ha, hk]
          rfl

theorem place_error (h : (unlinked d).place p = .error f) : d.slot p = .error f ∧ d.find p = .error f := by
  rcases unlinked_place_cases d p with ⟨g, hg, hs⟩ | ⟨-, k, -, hk⟩
  · rw [hg] at h
    cases h
    exact hs
  · rw [hk] at h
    cases h

theorem place_ok (h : (unlinked d).place p = .ok l) : Disk.admit? p = none ∧
    ∃ k, d.follow (d.start p) (Disk.segments p).dropLast = .ok k ∧
      (unlinked d).beside l = { d with workingDirectory := k } ∧ name p l = Disk.lastName p := by
  rcases unlinked_place_cases d p with ⟨g, hg, -⟩ | ⟨ha, k, hk, hl⟩
  · rw [hg] at h
    cases h
  · rw [hl] at h
    cases h
    refine ⟨ha, k, hk, ?_, ?_⟩
    · rw [beside, List.dropLast_concat]
      rfl
    · rw [name, List.getLast?_concat]
      rfl

theorem start_lastName (k : Location) : { d with workingDirectory := k }.start (Disk.lastName p) = k := by
  rw [Disk.start, Disk.lastName_relative]
  rfl

theorem slot_beside (h : (unlinked d).place p = .ok l) :
    ((unlinked d).beside l).slot (name p l) = d.slot p := by
  obtain ⟨ha, k, hk, hb, hn⟩ := place_ok h
  have hnode : { d with workingDirectory := k }.node? k = d.node? k := rfl
  rw [hb, hn]
  simp only [Disk.slot, ha, hk, Disk.lastName_admitted ha, Disk.lastName_segments, List.dropLast_singleton,
    Disk.follow, start_lastName, hnode]
  rfl

theorem locate_beside (h : (unlinked d).place p = .ok l) :
    ((unlinked d).beside l).locate (name p l) = d.locate p := by
  obtain ⟨ha, k, hk, hb, hn⟩ := place_ok h
  rw [hb, hn, Disk.locate_admitted (Disk.lastName_admitted ha), Disk.lastName_segments, Disk.lastName_slash,
    start_lastName, Disk.follow_from, Disk.locate_last ha, hk, Except.bind, Disk.lastSegment]
  cases hs : (Disk.segments p).getLast? with
  | some s => rfl
  | none =>
      -- The path is made of slashes, and staying twice is staying once.
      have hslash := Disk.slash_of_segments (List.getLast?_eq_none_iff.1 hs) (Disk.admitted_iff.1 ha).2.1
      simp only [hslash, Disk.follow, Disk.step, Option.getD_none, Option.toList_none, List.cons_append,
        List.nil_append, if_true]
      cases d.node? k with
      | none => rfl
      | some n => cases n <;> rfl

theorem find_beside (h : (unlinked d).place p = .ok l) :
    ((unlinked d).beside l).find (name p l) = d.find p := by
  simp only [Disk.find, locate_beside h]
  rfl

theorem endsInSlash_name (h : (unlinked d).place p = .ok l) :
    Disk.endsInSlash (name p l) = Disk.endsInSlash p := by
  obtain ⟨-, k, -, -, hn⟩ := place_ok h
  rw [hn, Disk.lastName_slash]

theorem makeDirectory_beside (h : (unlinked d).place p = .ok l) :
    (((unlinked d).beside l).makeDirectory (name p l)).map (unlinked d).become =
      (d.makeDirectory p).map unlinked := by
  simp only [Disk.makeDirectory, slot_beside h]
  cases d.slot p with
  | error f => rfl
  | ok k =>
      have hn : ((unlinked d).beside l).node? (k.1 ++ [k.2]) = d.node? (k.1 ++ [k.2]) := rfl
      dsimp only
      rw [hn]
      split
      · rfl
      · split
        · rfl
        · cases d.node? (k.1 ++ [k.2]) <;> rfl

theorem write_beside (h : (unlinked d).place p = .ok l) (content : Bytes) :
    (((unlinked d).beside l).write (name p l) content).map (unlinked d).become =
      (d.write p content).map unlinked := by
  simp only [Disk.write, slot_beside h, endsInSlash_name h]
  cases d.slot p with
  | error f => rfl
  | ok k =>
      have hn : ((unlinked d).beside l).node? (k.1 ++ [k.2]) = d.node? (k.1 ++ [k.2]) := rfl
      dsimp only
      rw [hn]
      split
      · rfl
      · split
        · rfl
        · cases d.node? (k.1 ++ [k.2]) with
          | none => rfl
          | some n => cases n <;> rfl

/-- With no links to follow, a disk with links is its disk. -/
theorem agrees_unlinked : FileSystem.Agrees unlinked where
  readHead d p count := by
    simp only [FileSystem.readHead]
    cases h : (unlinked d).place p with
    | error f => simp only [Disk.readHead, (place_error h).2, bind, Except.bind]
    | ok l => simp only [Disk.readHead, unlinked_target, find_beside h, bind, Except.bind]
  isDirectory d p := by
    simp only [FileSystem.isDirectory]
    cases h : (unlinked d).place p with
    | error f => simp only [Disk.isDirectory, (place_error h).2]
    | ok l => simp only [Disk.isDirectory, unlinked_target, find_beside h]
  makeDirectory d p := by
    cases h : (unlinked d).place p with
    | error f => simp only [FileSystem.makeDirectory, h, Disk.makeDirectory, (place_error h).1]; rfl
    | ok l =>
        rw [Disk.fileSystem_makeDirectory, ← makeDirectory_beside h]
        simp only [FileSystem.makeDirectory, h]
        rfl
  write d p content := by
    cases h : (unlinked d).place p with
    | error f => simp only [FileSystem.write, h, Disk.write, (place_error h).1]; rfl
    | ok l =>
        rw [Disk.fileSystem_write, ← write_beside h]
        simp only [FileSystem.write, h]
        rfl

end Linked

end EntityGen
