import EntityGen.Disk
import EntityGen.Proofs.Disk.Lookup

namespace EntityGen.Disk

variable {d : Disk} {l m : Location} {n : String}

structure IsName (s : String) : Prop where
  ne : s ≠ ""
  slash : '/' ∉ s.toList
  dots : isDots s = false

instance (s : String) : Decidable (IsName s) :=
  decidable_of_iff (s ≠ "" ∧ '/' ∉ s.toList ∧ isDots s = false)
    ⟨fun h => ⟨h.1, h.2.1, h.2.2⟩, fun h => ⟨h.ne, h.slash, h.dots⟩⟩

/-- All places are reached by names. -/
def Named (d : Disk) : Prop := ∀ e ∈ d.nodes, ∀ s ∈ e.1, IsName s

instance (d : Disk) : Decidable d.Named := inferInstanceAs (Decidable (∀ e ∈ d.nodes, ∀ s ∈ e.1, IsName s))

theorem nameIn?_eq_some : nameIn? l m = some n ↔ m = l ++ [n] := by
  rw [nameIn?]
  cases hm : m.getLast? with
  | none =>
      rw [List.getLast?_eq_none_iff] at hm
      simp [hm]
  | some k =>
      obtain ⟨init, rfl⟩ := List.getLast?_eq_some_iff.1 hm
      simp only [Option.ite_none_right_eq_some, Option.some.injEq, List.append_cancel_right_eq]
      constructor
      · rintro ⟨rfl, rfl⟩
        rfl
      · intro h
        obtain ⟨hi, hk⟩ := List.append_inj' h rfl
        exact ⟨hi, List.singleton_inj.1 hk⟩

theorem mem_names : n ∈ d.names l ↔ ∃ e ∈ d.nodes, e.1 = l ++ [n] := by
  rw [names, List.mem_mergeSort, List.mem_filterMap]
  simp only [nameIn?_eq_some]

theorem names_perm (d : Disk) (l : Location) : (d.names l).Perm (d.nodes.filterMap fun e => nameIn? l e.1) :=
  List.mergeSort_perm _ _

theorem names_sorted (d : Disk) (l : Location) : (d.names l).Pairwise (· ≤ ·) := by
  have htrans : ∀ a b c : String, decide (a ≤ b) = true → decide (b ≤ c) = true → decide (a ≤ c) = true :=
    fun _ _ _ hab hbc => decide_eq_true (String.le_trans (of_decide_eq_true hab) (of_decide_eq_true hbc))
  have htotal : ∀ a b : String, (decide (a ≤ b) || decide (b ≤ a)) = true := fun a b => by
    simpa using String.le_total a b
  exact (List.pairwise_mergeSort htrans htotal _).imp of_decide_eq_true

theorem names_eq {ns : List String} (hp : ns.Perm (d.nodes.filterMap fun e => nameIn? l e.1))
    (hs : ns.Pairwise (· ≤ ·)) : d.names l = ns :=
  ((d.names_perm l).trans hp.symm).eq_of_pairwise (fun _ _ _ _ => String.le_antisymm) (d.names_sorted l) hs

/-- What is found stands where its names lead, and each of them is a name of the disk. -/
theorem entriesBelow_found {depth : Nat} {e : List String × Node} (h : e ∈ d.entriesBelow depth l) :
    e.1 ≠ [] ∧ d.node? (l ++ e.1) = some e.2 ∧ ∀ n ∈ e.1, ∃ k ∈ d.nodes, n ∈ k.1 := by
  induction depth generalizing l e with
  | zero => cases h
  | succ depth ih =>
      rw [entriesBelow, List.mem_flatMap] at h
      obtain ⟨n, hn, h⟩ := h
      obtain ⟨k, hk, hkn⟩ := mem_names.1 hn
      have hname : ∃ k ∈ d.nodes, n ∈ k.1 := ⟨k, hk, by simp [hkn]⟩
      split at h
      · cases h
      next hdir =>
        rcases List.mem_cons.1 h with rfl | h
        · exact ⟨by simp, hdir, by simpa using hname⟩
        · obtain ⟨e, he, rfl⟩ := List.mem_map.1 h
          obtain ⟨-, hnode, hnames⟩ := ih he
          rw [List.append_assoc, List.singleton_append] at hnode
          exact ⟨by simp, hnode, List.forall_mem_cons.2 ⟨hname, hnames⟩⟩
      next node _ hnode =>
        rw [List.mem_singleton.1 h]
        exact ⟨by simp, hnode, by simpa using hname⟩

instance (o : Option Node) : Decidable (∃ b, o = some (.file b)) :=
  match o with
  | some (.file b) => .isTrue ⟨b, rfl⟩
  | some .directory | some .sink | none => .isFalse (by simp)

theorem below_of_files (hdepth : d.depth ≠ 0) (h : ∀ n ∈ d.names l, ∃ b, d.node? (l ++ [n]) = some (.file b)) :
    d.below l = (d.names l).filterMap fun n => (d.node? (l ++ [n])).map fun node => ([n], node) := by
  obtain ⟨depth, hd⟩ := Nat.exists_eq_succ_of_ne_zero hdepth
  rw [below, hd, entriesBelow]
  generalize d.names l = ns at h
  induction ns with
  | nil => rfl
  | cons n ns ih =>
      obtain ⟨⟨b, hb⟩, hns⟩ := List.forall_mem_cons.1 h
      rw [List.flatMap_cons, ih hns, List.filterMap_cons, hb]
      rfl

theorem Named.below (h : d.Named) {e : List String × Node} (he : e ∈ d.below l) : ∀ n ∈ e.1, IsName n := by
  obtain ⟨-, -, hnames⟩ := entriesBelow_found he
  intro n hn
  obtain ⟨k, hk, hnk⟩ := hnames n hn
  exact h k hk n hnk

end EntityGen.Disk
