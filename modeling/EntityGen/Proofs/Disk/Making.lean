import EntityGen.FileSystem
import EntityGen.Proofs.Disk.Growth

namespace EntityGen.Disk

open FileSystem (ensureDirectory ensureChain)
open Text.Utf8 (Bytes)

variable {d d' : Disk} {p : Path} {l m : Location} {s : String} {f : Fault}

theorem node?_put (hl : l ≠ []) (n : Node) :
    (d.put l n).node? m = if m = l then some n else d.node? m := by
  by_cases hm : m = l
  · rw [if_pos hm, hm, node?_put_self d n hl]
  · rw [if_neg hm, node?_put_ne d n hm]

theorem IsTree.directory (h : d.IsTree) {k : Location} {n : Node} (hn : d.node? (l ++ k) = some n)
    (hk : k ≠ []) : d.node? l = some .directory := by
  induction k generalizing l with
  | nil => exact absurd rfl hk
  | cons s k ih =>
      rw [List.append_cons] at hn
      by_cases hz : k = []
      · rw [hz, List.append_nil] at hn
        exact h.parent hn
      · exact h.parent (ih hn hz)

theorem node?_eq_some {n : Node} (hl : l ≠ []) : d.node? l = some n ↔ (l, n) ∈ d.nodes := by
  rw [node?, if_neg hl]
  have hnodup := d.nodup
  generalize d.nodes = nodes at hnodup
  induction nodes with
  | nil => simp
  | cons a as ih =>
      rw [List.map_cons, List.nodup_cons] at hnodup
      rw [List.lookup_cons, List.mem_cons]
      by_cases ha : l = a.1
      · subst ha
        have hnot : (a.1, n) ∉ as := fun h => hnodup.1 (List.mem_map.2 ⟨_, h, rfl⟩)
        simp [hnot, Prod.ext_iff, eq_comm]
      · simp [beq_eq_false_iff_ne.2 ha, ih hnodup.2, Prod.ext_iff, ha]

theorem isTree_iff : d.IsTree ↔ d.node? d.workingDirectory = some .directory ∧
    ∀ e ∈ d.nodes, d.node? e.1.dropLast = some .directory := by
  constructor
  · intro h
    refine ⟨h.workingDirectory, fun e he => ?_⟩
    rcases List.eq_nil_or_concat e.1 with hn | ⟨l, s, hn⟩
    · rw [hn]
      exact node?_root d
    · rw [List.concat_eq_append] at hn
      rw [hn, List.dropLast_concat]
      refine h.parent (s := s) (n := e.2) ((node?_eq_some (by simp)).2 ?_)
      rwa [← hn]
  · rintro ⟨hw, hp⟩
    refine ⟨hw, fun {l s n} hn => ?_⟩
    have := hp _ ((node?_eq_some (by simp)).1 hn)
    rwa [List.dropLast_concat] at this

instance : Decidable d.IsTree := decidable_of_iff' _ isTree_iff

theorem IsTree.put (h : d.IsTree) (hl : d.node? l = some .directory) {n : Node}
    (hn : d.node? (l ++ [s]) ≠ some .directory) : (d.put (l ++ [s]) n).IsTree where
  workingDirectory := by
    rw [node?_put (by simp), if_neg]
    · exact h.workingDirectory
    · intro he
      exact hn (he ▸ h.workingDirectory)
  parent {k t n'} hk := by
    have hkl : k ≠ l ++ [s] := by
      rintro rfl
      rw [node?_put (by simp), if_neg (by simp)] at hk
      exact hn (h.parent hk)
    rw [node?_put (by simp), if_neg hkl]
    rw [node?_put (by simp)] at hk
    split at hk
    next he =>
      rw [(List.append_inj' he rfl).1]
      exact hl
    · exact h.parent hk

theorem makeDirectory_ok (h : d.makeDirectory p = .ok d') : ∃ l s, d.slot p = .ok (l, s) ∧
    isDots s = false ∧ isLong s = false ∧ d.node? (l ++ [s]) = none ∧
      d' = d.put (l ++ [s]) .directory := by
  simp only [makeDirectory] at h
  split at h
  · cases h
  next l s hs =>
    split at h
    · cases h
    next hd =>
      split at h
      · cases h
      next hl =>
        split at h
        · cases h
        next hn =>
          cases h
          exact ⟨l, s, hs, by simpa using hd, by simpa using hl, hn, rfl⟩

theorem makeDirectory_error (h : d.makeDirectory p = .error f) : d.slot p = .error f ∨
    ∃ l s, d.slot p = .ok (l, s) ∧ (isDots s = true ∧ f = .alreadyExists ∨
      isDots s = false ∧ (isLong s = true ∧ f = .nameTooLong ∨
        isLong s = false ∧ ∃ n, d.node? (l ++ [s]) = some n ∧ f = .alreadyExists)) := by
  simp only [makeDirectory] at h
  split at h
  next g hs => exact .inl (by rw [hs, Except.error.inj h])
  next l s hs =>
    refine .inr ⟨l, s, hs, ?_⟩
    split at h
    next hd => exact .inl ⟨hd, (Except.error.inj h).symm⟩
    next hd =>
      refine .inr ⟨by simpa using hd, ?_⟩
      split at h
      next hl => exact .inl ⟨hl, (Except.error.inj h).symm⟩
      next hl =>
        refine .inr ⟨by simpa using hl, ?_⟩
        split at h
        next n hn => exact ⟨n, hn, (Except.error.inj h).symm⟩
        · cases h

theorem makeDirectory_furnishes (h : d.makeDirectory p = .ok d') : d.Furnishes d' := by
  obtain ⟨l, s, hs, -, -, hn, rfl⟩ := makeDirectory_ok h
  refine ⟨rfl, fun m => ?_, fun ht => ht.put (slot_ok hs).2.2.1 (by simp [hn])⟩
  rw [node?_put (by simp)]
  split
  next hm => exact .inr ⟨by rw [hm, hn], rfl⟩
  · exact .inl rfl

theorem ensureDirectory_furnishes (d : Disk) (p : Path) : d.Furnishes (ensureDirectory d p).1 := by
  simp only [ensureDirectory, fileSystem_makeDirectory]
  split
  · exact makeDirectory_furnishes ‹_›
  · exact .refl d

theorem ensureChain_furnishes (d : Disk) (c : List Path) : d.Furnishes (ensureChain d c).1 := by
  induction c with
  | nil => exact .refl d
  | cons p outer ih =>
      simp only [ensureChain, fileSystem_makeDirectory]
      split
      · split
        next d' hd => rw [hd] at ih; exact ih.trans (ensureDirectory_furnishes d' p)
        next d' f hd => rw [hd] at ih; exact ih
      · exact ensureDirectory_furnishes d p

theorem write_ok {c : Bytes} (h : d.write p c = .ok d') : ∃ l s, d.slot p = .ok (l, s) ∧
    d.locate p = .ok (l ++ [s]) ∧ isDots s = false ∧
      (d.node? (l ++ [s]) = some .sink ∧ d' = d ∨
        (d.node? (l ++ [s]) = none ∨ ∃ b, d.node? (l ++ [s]) = some (.file b)) ∧
          d' = d.put (l ++ [s]) (.file c)) := by
  simp only [write] at h
  split at h
  · cases h
  next l s hs =>
    split at h
    · cases h
    next hd =>
      rw [not_or] at hd
      split at h
      · cases h
      next hl =>
        have hdots : isDots s = false := by simpa using hd.1
        have hloc := locate_of_slot hs hdots (by simpa using hl)
        rw [if_neg hd.2] at hloc
        refine ⟨l, s, hs, hloc, hdots, ?_⟩
        split at h
        · cases h
        next hn =>
          cases h
          exact .inl ⟨hn, rfl⟩
        next hdir hsink =>
          cases h
          refine .inr ⟨?_, rfl⟩
          cases hn : d.node? (l ++ [s]) with
          | none => exact .inl rfl
          | some n => cases n <;> simp_all

theorem write_grows {c : Bytes} (h : d.write p c = .ok d') : d.Grows d' := by
  obtain ⟨l, s, -, -, -, ⟨-, rfl⟩ | ⟨hn, rfl⟩⟩ := write_ok h
  · exact .refl _
  · have hne : l ++ [s] ≠ [] := by simp
    refine ⟨rfl, fun {k} hk => ?_, fun {k b} hk => ?_, fun {k} hk => ?_⟩
    all_goals
      rw [node?_put hne]
      split
      next he => subst he; simp_all
      · simp [hk]

theorem write_isTree {c : Bytes} (h : d.write p c = .ok d') (ht : d.IsTree) : d'.IsTree := by
  obtain ⟨l, s, hs, -, -, ⟨-, rfl⟩ | ⟨hn, rfl⟩⟩ := write_ok h
  · exact ht
  · exact ht.put (slot_ok hs).2.2.1 (by rcases hn with hn | ⟨b, hn⟩ <;> simp [hn])

end EntityGen.Disk
