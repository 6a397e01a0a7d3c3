import EntityGen.Proofs.Emission
import EntityGen.Proofs.Spelling

namespace EntityGen.Disk

open EntityGen.Path (Here)
open FileSystem (ensureDirectory ensureChain ensureDirectories)
open Text.Utf8 (Bytes)

variable {d d' d'' : Disk} {p q : Path} {l m : Location} {s : String} {ss : List String} {f : Fault}

/-- A path does not lead to a directory and never will, as long as the disk only grows. -/
def Blocked (d : Disk) (p : Path) : Prop :=
  (∃ f, f ≠ .notFound ∧ d.find p = .error f) ∨ ∃ n, n ≠ .directory ∧ d.find p = .ok n

theorem Blocked.grows (h : d.Blocked p) (hg : d.Grows d') : d'.Blocked p := by
  rcases h with ⟨f, hf, hp⟩ | ⟨n, hn, hp⟩
  · exact .inl ⟨f, hf, hg.find_error hf hp⟩
  · obtain ⟨l, hl, hnode⟩ := find_ok.1 hp
    obtain ⟨n', hn', hdir⟩ := hg.exists_node hnode
    exact .inr ⟨n', fun h => hn (hdir.1 h), find_ok.2 ⟨l, hg.locate_ok hl, hn'⟩⟩

theorem Blocked.not_directory (h : d.Blocked p) : d.find p ≠ .ok .directory := by
  rintro hp
  rcases h with ⟨f, -, hf⟩ | ⟨n, hn, hf⟩
  · rw [hp] at hf
    cases hf
  · rw [hp] at hf
    exact hn (Except.ok.inj hf).symm

theorem Blocked.not_missing (h : d.Blocked p) : d.find p ≠ .error .notFound := by
  rintro hp
  rcases h with ⟨f, hne, hf⟩ | ⟨n, -, hf⟩
  · rw [hp] at hf
    exact hne (Except.error.inj hf).symm
  · rw [hp] at hf
    cases hf

theorem Blocked.ensureChain (h : d.Blocked p) (outer : List Path) :
    ∃ f, ensureChain d (p :: outer) = (d, .error f) := by
  have hdir : d.isDirectory p ≠ true := fun hd => h.not_directory (isDirectory_iff.1 hd)
  cases hm : d.makeDirectory p with
  | ok d' =>
      obtain ⟨l, s, hs, hd, hl, hn, -⟩ := makeDirectory_ok hm
      have hp : d.find p = .error .notFound := by
        rw [find, locate_of_slot hs hd hl]
        cases endsInSlash p <;> simp [follow, hn]
      exact absurd hp h.not_missing
  | error f =>
      have hf : f ≠ .notFound := by
        rintro rfl
        rcases makeDirectory_error hm with hs | ⟨l, s, hs, ⟨-, hf⟩ | ⟨-, ⟨-, hf⟩ | ⟨-, n, -, hf⟩⟩⟩
        · exact h.not_missing (slot_notFound hs)
        all_goals cases hf
      refine ⟨f, ?_⟩
      rw [FileSystem.ensureChain, fileSystem_makeDirectory, hm]
      cases f with
      | notFound => exact absurd rfl hf
      | _ =>
          simp only [ensureDirectory, fileSystem_makeDirectory, fileSystem_isDirectory, hm, hdir,
            Bool.false_eq_true, if_false]

theorem Blocked.follow (h : d.Blocked p) (ha : admit? p = none) (hs : ss ≠ []) :
    ∃ f, f ≠ .notFound ∧ d.follow (d.start p) (segments p ++ ss) = .error f := by
  have hloc := locate_admitted (d := d) ha
  rw [follow_append] at hloc
  cases hk : d.follow (d.start p) (segments p) with
  | error g =>
      rw [hk] at hloc
      refine ⟨g, ?_, follow_append_error hk ss⟩
      rintro rfl
      exact h.not_missing (find_of_locate_error hloc)
  | ok k =>
      rw [hk] at hloc
      simp only [Except.bind] at hloc
      rw [follow_append, hk]
      cases hn : d.node? k with
      | none =>
          refine absurd ?_ h.not_missing
          cases hslash : endsInSlash p with
          | true =>
              rw [hslash, if_pos rfl, Disk.follow, hn] at hloc
              exact find_of_locate_error hloc
          | false =>
              rw [hslash] at hloc
              exact find_missing hloc hn
      | some n =>
          have hnd : n ≠ .directory := by
            rintro rfl
            rw [slash_directory hn] at hloc
            exact h.not_directory (find_ok.2 ⟨k, hloc, hn⟩)
          exact ⟨_, by simp, follow_nondirectory hn hnd hs⟩

theorem Blocked.below (h : d.Blocked p.above) (ha : admit? p = none) (hne : p.above.text ≠ "") :
    d.Blocked p := by
  have ha' := Path.admit_above ha hne
  obtain ⟨here, -, ⟨hz, -⟩ | ⟨s, here', -, -, hseg⟩⟩ := p.segments_above
  · rw [hz] at hne
    exact absurd rfl hne
  · obtain ⟨f, hf, hfollow⟩ := h.follow ha'
      (List.append_ne_nil_of_left_ne_nil (List.append_ne_nil_of_right_ne_nil here
        (List.cons_ne_nil s here')) (if endsInSlash p then ["."] else []))
    refine .inl ⟨f, hf, find_of_locate_error ?_⟩
    rw [locate_admitted ha, hseg, ← hfollow]
    simp only [List.append_assoc]
    rw [start_congr (Path.lead_above hne)]

theorem follow_here (hn : d.node? l = some .directory) (h : Here ss) : d.follow l ss = .ok l := by
  induction ss with
  | nil => rfl
  | cons s ss ih =>
      rw [h s List.mem_cons_self, follow, hn]
      exact ih fun t ht => h t (List.mem_cons_of_mem _ ht)

theorem IsTree.start (ht : d.IsTree) (p : Path) : d.node? (d.start p) = some .directory := by
  rw [Disk.start]
  split
  · exact node?_root d
  · exact ht.workingDirectory

end EntityGen.Disk
