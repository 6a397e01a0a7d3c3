import EntityGen.Disk

namespace EntityGen.Disk

variable {d d' d'' : Disk} {p : Path} {l m : Location} {ss ts : List String} {f : Fault}

instance {ε α : Type} [DecidableEq α] (r : Except ε α) (a : α) : Decidable (r = .ok a) :=
  match r with
  | .ok b => decidable_of_iff (b = a) (by simp)
  | .error _ => isFalse (by simp)

theorem follow_cons (s : String) : d.follow l (s :: ss) = .ok m ↔
    d.node? l = some .directory ∧ ∃ k, step l s = .ok k ∧ d.follow k ss = .ok m := by
  rw [follow]
  cases hn : d.node? l with
  | none => simp
  | some n => cases n <;> cases hs : step l s <;> simp

theorem follow_append (l : Location) (ss ts : List String) :
    d.follow l (ss ++ ts) = (d.follow l ss).bind (d.follow · ts) := by
  induction ss generalizing l with
  | nil => rfl
  | cons s ss ih =>
      simp only [List.cons_append, follow]
      cases d.node? l with
      | none => rfl
      | some n => cases n <;> cases step l s <;> simp only [Except.bind, ih]

theorem follow_append_ok : d.follow l (ss ++ ts) = .ok m ↔
    ∃ k, d.follow l ss = .ok k ∧ d.follow k ts = .ok m := by
  rw [follow_append]
  cases d.follow l ss <;> simp [Except.bind]

theorem follow_append_error (h : d.follow l ss = .error f) (ts : List String) :
    d.follow l (ss ++ ts) = .error f := by
  rw [follow_append, h]
  rfl

theorem follow_nondirectory {n : Node} (hn : d.node? l = some n) (hd : n ≠ .directory)
    (hs : ss ≠ []) : d.follow l ss = .error .notADirectory := by
  cases ss with
  | nil => exact absurd rfl hs
  | cons s ss =>
      rw [follow, hn]
      cases n with
      | directory => exact absurd rfl hd
      | file | sink => rfl

theorem admitted_iff : admit? p = none ↔
    '\x00' ∉ p.text.toList ∧ p.text ≠ "" ∧ p.text.utf8ByteSize ≤ pathLimit := by
  simp only [admit?, ← Nat.not_lt]
  by_cases hnul : '\x00' ∈ p.text.toList
  · simp [hnul]
  · by_cases hne : p.text = "" <;> simp [hnul, hne]

theorem locate_admitted (h : admit? p = none) :
    d.locate p = d.follow (d.start p) (segments p ++ if endsInSlash p then ["."] else []) := by
  simp only [locate, h]

theorem locate_ok (h : d.locate p = .ok l) : admit? p = none ∧
    d.follow (d.start p) (segments p ++ if endsInSlash p then ["."] else []) = .ok l := by
  simp only [locate] at h
  split at h
  · cases h
  · exact ⟨‹_›, h⟩

theorem find_ok {n : Node} :
    d.find p = .ok n ↔ ∃ l, d.locate p = .ok l ∧ d.node? l = some n := by
  simp only [find]
  cases d.locate p with
  | error f => simp
  | ok l => cases hn : d.node? l <;> simp [hn]

theorem find_of_locate_error (h : d.locate p = .error f) : d.find p = .error f := by
  simp only [find, h]

theorem find_missing (h : d.locate p = .ok l) (hn : d.node? l = none) :
    d.find p = .error .notFound := by
  simp only [find, h, hn]

theorem find_error (h : d.find p = .error f) (hf : f ≠ .notFound) : d.locate p = .error f := by
  cases hl : d.locate p with
  | error g =>
      rw [find_of_locate_error hl] at h
      rw [Except.error.inj h]
  | ok l =>
      cases hn : d.node? l with
      | none =>
          rw [find_missing hl hn] at h
          exact absurd (Except.error.inj h).symm hf
      | some n => rw [find_ok.2 ⟨l, hl, hn⟩] at h; cases h

theorem isDirectory_iff : d.isDirectory p = true ↔ d.find p = .ok .directory := by
  simp only [isDirectory]
  split <;> simp_all

theorem dropLast_append_last (ss : List String) : ss.dropLast ++ ss.getLast?.toList = ss := by
  cases hs : ss.getLast? with
  | none => rw [List.getLast?_eq_none_iff.1 hs]; rfl
  | some s =>
      obtain ⟨init, rfl⟩ := List.getLast?_eq_some_iff.1 hs
      simp

theorem locate_last (ha : admit? p = none) : d.locate p =
    (d.follow (d.start p) (segments p).dropLast).bind
      (d.follow · ((segments p).getLast?.toList ++ if endsInSlash p then ["."] else [])) := by
  rw [locate_admitted ha, ← follow_append, ← List.append_assoc, dropLast_append_last]

theorem slot_ok {s : String} (h : d.slot p = .ok (l, s)) :
    admit? p = none ∧ d.follow (d.start p) (segments p).dropLast = .ok l ∧
      d.node? l = some .directory ∧ s = (segments p).getLast?.getD "." := by
  simp only [slot] at h
  split at h
  · cases h
  next ha =>
    split at h
    · cases h
    next k hk =>
      split at h
      · cases h
      · cases h
        exact ⟨ha, hk, ‹_›, rfl⟩
      · cases h

theorem slot_of_follow (ha : admit? p = none)
    (hl : d.follow (d.start p) (segments p).dropLast = .ok l) (hn : d.node? l = some .directory) :
    d.slot p = .ok (l, (segments p).getLast?.getD ".") := by
  simp only [slot, ha, hl, hn]

theorem slot_notFound (h : d.slot p = .error .notFound) : d.find p = .error .notFound := by
  simp only [slot] at h
  split at h
  next g hg =>
    have : d.locate p = .error .notFound := by
      simp only [locate, hg, Except.error.injEq] at h ⊢
      exact h
    exact find_of_locate_error this
  next ha =>
    have hs := dropLast_append_last (segments p)
    rw [find, locate_admitted ha]
    rw [← hs, List.append_assoc]
    split at h
    next g hg =>
      rw [follow_append_error hg, Except.error.inj h]
    next k hk =>
      split at h
      next hn =>
        rw [follow_append, hk]
        generalize (segments p).getLast?.toList ++ _ = rest
        cases rest with
        | nil => simp only [Except.bind, follow, hn]
        | cons s rest => simp only [Except.bind, follow, hn]
      · cases h
      · cases h

theorem step_plain {s : String} (hd : isDots s = false) (hl : isLong s = false) :
    step l s = .ok (l ++ [s]) := by
  simp only [isDots, Bool.or_eq_false_iff, beq_eq_false_iff_ne, ne_eq] at hd
  simp [step, hd.1, hd.2, hl]

theorem slot_last {s : String} (h : d.slot p = .ok (l, s)) (hd : isDots s = false) :
    (segments p).getLast? = some s := by
  obtain ⟨-, -, -, hs⟩ := slot_ok h
  cases hz : (segments p).getLast? with
  | none =>
      rw [hz] at hs
      subst hs
      cases hd
  | some t => rw [hs, hz, Option.getD_some]

theorem locate_of_slot {s : String} (h : d.slot p = .ok (l, s)) (hd : isDots s = false)
    (hl : isLong s = false) :
    d.locate p = d.follow (l ++ [s]) (if endsInSlash p then ["."] else []) := by
  obtain ⟨ha, hf, hn, -⟩ := slot_ok h
  rw [locate_last ha, hf, slot_last h hd]
  simp only [Except.bind, Option.toList_some, List.singleton_append, follow, hn, step_plain hd hl]

end EntityGen.Disk
