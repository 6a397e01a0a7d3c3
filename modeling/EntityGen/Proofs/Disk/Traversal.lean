import EntityGen.Proofs.Disk.Making
import EntityGen.Proofs.Disk.Walk
import Mathlib.Data.List.Nodup
import Mathlib.Data.List.Perm.Basic

namespace EntityGen.Disk

variable {d d' : Disk} {l : Location} {n : String} {ms : List String} {x : Node} {k : Nat}
  {e : List String × Node}

theorem le_foldl_max {xs : List Nat} {a y : Nat} (h : y ≤ a ∨ y ∈ xs) : y ≤ xs.foldl max a := by
  induction xs generalizing a with
  | nil => simpa using h
  | cons y ys ih =>
      apply ih
      rcases h with h | h
      · exact .inl (by omega)
      · rcases List.mem_cons.1 h with rfl | h
        · exact .inl (by omega)
        · exact .inr h

theorem length_le_depth (hn : d.node? l = some x) : l.length ≤ d.depth := by
  by_cases hl : l = []
  · simp [hl]
  · refine le_foldl_max (.inr ?_)
    exact List.mem_map_of_mem (f := fun e => e.1.length) ((node?_eq_some hl).1 hn)

def entriesAt (d : Disk) (k : Nat) (l : Location) (n : String) : List (List String × Node) :=
  match d.node? (l ++ [n]) with
  | none => []
  | some .directory =>
    ([n], .directory) :: (d.entriesBelow k (l ++ [n])).map fun e => (n :: e.1, e.2)
  | some x => [([n], x)]

theorem entriesBelow_succ (d : Disk) (k : Nat) (l : Location) :
    d.entriesBelow (k + 1) l = (d.names l).flatMap (d.entriesAt k l) := rfl

theorem entriesAt_self (hn : d.node? (l ++ [n]) = some x) : ([n], x) ∈ d.entriesAt k l n := by
  rw [entriesAt, hn]
  cases x <;> exact List.mem_cons_self

theorem entriesAt_below (hn : d.node? (l ++ [n]) = some .directory)
    (h : (ms, x) ∈ d.entriesBelow k (l ++ [n])) : (n :: ms, x) ∈ d.entriesAt k l n := by
  rw [entriesAt, hn]
  exact List.mem_cons_of_mem _ (List.mem_map_of_mem (f := fun e => (n :: e.1, e.2)) h)

theorem entriesBelow_complete (ht : d.IsTree) (hne : ms ≠ []) (hlen : ms.length ≤ k)
    (hn : d.node? (l ++ ms) = some x) : (ms, x) ∈ d.entriesBelow k l := by
  induction k generalizing l ms with
  | zero => exact absurd (List.length_eq_zero_iff.1 (Nat.le_zero.1 hlen)) hne
  | succ k ih =>
      obtain ⟨n, rest, rfl⟩ := List.exists_cons_of_ne_nil hne
      rw [List.append_cons] at hn
      have hname : ∀ {m}, d.node? (l ++ [n]) = some m → n ∈ d.names l := fun hm =>
        mem_names.2 ⟨_, (node?_eq_some (by simp)).1 hm, rfl⟩
      rw [entriesBelow_succ, List.mem_flatMap]
      by_cases hrest : rest = []
      · rw [hrest, List.append_nil] at hn
        exact ⟨n, hname hn, hrest ▸ entriesAt_self hn⟩
      · have hdir := ht.directory hn hrest
        refine ⟨n, hname hdir, entriesAt_below hdir (ih hrest ?_ hn)⟩
        rw [List.length_cons] at hlen
        omega

theorem mem_below (ht : d.IsTree) :
    (ms, x) ∈ d.below l ↔ ms ≠ [] ∧ d.node? (l ++ ms) = some x := by
  constructor
  · intro h
    obtain ⟨hne, hn, -⟩ := entriesBelow_found h
    exact ⟨hne, hn⟩
  · rintro ⟨hne, hn⟩
    refine entriesBelow_complete ht hne ?_ hn
    have hlen := length_le_depth hn
    rw [List.length_append] at hlen
    omega

theorem names_increasing (d : Disk) (l : Location) : (d.names l).Pairwise (· < ·) := by
  have hkeys : (d.nodes.filterMap fun e => nameIn? l e.1) = (d.nodes.map Prod.fst).filterMap (nameIn? l) := by
    rw [List.filterMap_map]
    rfl
  have hnodup : (d.names l).Nodup := by
    refine (d.names_perm l).nodup_iff.2 ?_
    rw [hkeys]
    refine d.nodup.filterMap fun k k' n hk hk' => ?_
    rw [nameIn?_eq_some.1 hk, nameIn?_eq_some.1 hk']
  refine (d.names_sorted l).imp₂ (fun n m hle hne => ?_) hnodup
  exact Std.lt_of_le_of_ne hle hne

theorem entriesAt_begins (h : e ∈ d.entriesAt k l n) : ∃ rest, e.1 = n :: rest := by
  rw [entriesAt] at h
  split at h
  · cases h
  · rcases List.mem_cons.1 h with rfl | h
    · exact ⟨[], rfl⟩
    · obtain ⟨e, -, rfl⟩ := List.mem_map.1 h
      exact ⟨e.1, rfl⟩
  · exact ⟨[], by rw [List.mem_singleton.1 h]⟩

/-- A directory comes before what is in it, and that before what stands after the directory. -/
theorem entriesBelow_increasing (d : Disk) (k : Nat) (l : Location) :
    (d.entriesBelow k l).Pairwise fun e f => e.1 < f.1 := by
  induction k generalizing l with
  | zero => exact .nil
  | succ k ih =>
      rw [entriesBelow_succ, List.pairwise_flatMap]
      refine ⟨fun n _ => ?_, (d.names_increasing l).imp fun {n m} hlt e he f hf => ?_⟩
      · rw [entriesAt]
        split
        · exact .nil
        · refine List.pairwise_cons.2 ⟨fun e he => ?_, ?_⟩
          · obtain ⟨f, hf, rfl⟩ := List.mem_map.1 he
            obtain ⟨s, rest, hs⟩ := List.exists_cons_of_ne_nil (entriesBelow_found hf).1
            rw [hs]
            exact .cons .nil
          · exact List.pairwise_map.2 ((ih _).imp fun h => .cons h)
        · exact List.pairwise_singleton _ _
      · obtain ⟨rest, he⟩ := entriesAt_begins he
        obtain ⟨rest', hf⟩ := entriesAt_begins hf
        rw [he, hf]
        exact .rel hlt

/-- The same tree, listed in another order. -/
structure Relisted (d d' : Disk) : Prop where
  workingDirectory : d'.workingDirectory = d.workingDirectory
  nodes : d'.nodes.Perm d.nodes

namespace Relisted

theorem node (h : d.Relisted d') (l : Location) : d'.node? l = d.node? l := by
  by_cases hl : l = []
  · rw [hl, node?_root, node?_root]
  · ext n
    rw [node?_eq_some hl, node?_eq_some hl, h.nodes.mem_iff]

theorem names (h : d.Relisted d') (l : Location) : d'.names l = d.names l :=
  names_eq ((d.names_perm l).trans (h.nodes.symm.filterMap _)) (d.names_sorted l)

theorem depth (h : d.Relisted d') : d'.depth = d.depth := by
  refine (h.nodes.map _).foldl_eq' (fun x _ y _ z => ?_) 0
  omega

theorem entriesBelow (h : d.Relisted d') (depth : Nat) (l : Location) :
    d'.entriesBelow depth l = d.entriesBelow depth l := by
  induction depth generalizing l with
  | zero => rfl
  | succ depth ih =>
      rw [entriesBelow_succ, entriesBelow_succ, h.names]
      refine List.flatMap_congr fun n _ => ?_
      rw [entriesAt, entriesAt, h.node, ih]

theorem below (h : d.Relisted d') : d'.below = d.below := by
  funext l
  rw [Disk.below, Disk.below, h.depth, h.entriesBelow]

theorem follow (h : d.Relisted d') (l : Location) (ss : List String) : d'.follow l ss = d.follow l ss := by
  induction ss generalizing l with
  | nil => rfl
  | cons s ss ih =>
      rw [Disk.follow, Disk.follow, h.node]
      split
      · rfl
      · split
        · rfl
        · exact ih _
      · rfl

theorem locate (h : d.Relisted d') (p : Path) : d'.locate p = d.locate p := by
  rw [Disk.locate, Disk.locate, Disk.start, Disk.start, h.workingDirectory]
  simp only [h.follow]

theorem find (h : d.Relisted d') (p : Path) : d'.find p = d.find p := by
  rw [Disk.find, Disk.find, h.locate]
  simp only [h.node]

end Relisted

end EntityGen.Disk
