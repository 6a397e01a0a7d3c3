import EntityGen.Proofs.Json.Reading

namespace EntityGen.Json

open Text.Utf8 (Bytes)

variable {α : Type} {close : UInt8} {first : Bool} {ps : List Bytes} {p s x : Bytes}

/-- A piece is told from space and from a closing bracket by its first octet. -/
def Begins (p : Bytes) : Prop := ∃ b t, p = b :: t ∧ isSpace b = false ∧ b ≠ closeList ∧ b ≠ closeRecord

theorem isSpace_cases {b : UInt8} (h : isSpace b = true) : b = 0x20 ∨ b = 0x9 ∨ b = 0xA ∨ b = 0xD := by
  simpa only [isSpace, Bool.or_eq_true, beq_iff_eq, or_assoc] using h

theorem isDigit_not_space {b : UInt8} (h : isDigit b = true) : isSpace b = false := by
  refine Bool.eq_false_iff.2 fun hs => ?_
  rcases isSpace_cases hs with rfl | rfl | rfl | rfl <;> exact absurd h (by decide)

theorem begins_digit {d : UInt8} (h : isDigit d = true) (t : Bytes) : Begins (d :: t) := by
  refine ⟨d, t, rfl, isDigit_not_space h, ?_, ?_⟩ <;>
    · rintro rfl
      exact absurd h (by decide)

theorem IsNumber.begins (h : IsNumber p) : Begins p := by
  cases h with
  | positive hw =>
      obtain ⟨d, ds, rfl, hd⟩ := hw.head_digit
      exact begins_digit hd _
  | negative => exact ⟨_, _, rfl, by decide⟩

theorem IsValue.begins (h : IsValue p) : Begins p := by
  cases h with
  | number h => exact h.begins
  | nullWord | trueWord | falseWord | text | list | record => exact ⟨_, _, rfl, by decide⟩

theorem Member.begins (m : Member) : Begins m.text := ⟨_, _, rfl, by decide⟩

theorem isSpace_stops {b : UInt8} (h : isSpace b = true) (t : Bytes) : Stops (b :: t) := by
  rcases isSpace_cases h with rfl | rfl | rfl | rfl <;>
    exact ⟨fun _ hb => Option.some.inj hb ▸ rfl, by simp, by simp⟩

theorem stops_gap {a : Bytes} (ha : Gap a) (hx : Stops x) : Stops (a ++ x) := by
  cases a with
  | nil => exact hx
  | cons b a => exact isSpace_stops (ha b (by simp)) _

theorem stops_comma (t : Bytes) : Stops (comma :: t) :=
  ⟨fun _ hb => Option.some.inj hb ▸ rfl, by simp [comma], by simp [comma]⟩

theorem stops_close (hc : close = closeList ∨ close = closeRecord) (t : Bytes) : Stops (close :: t) := by
  rcases hc with rfl | rfl <;>
    exact ⟨fun _ hb => Option.some.inj hb ▸ rfl, by simp [closeList, closeRecord], by simp [closeList, closeRecord]⟩

theorem Row.stops (h : Row close false ps s) (hc : close = closeList ∨ close = closeRecord) (x : Bytes) :
    Stops (s ++ x) := by
  cases h with
  | close ha =>
      rw [List.append_assoc]
      exact stops_gap ha (stops_close hc _)
  | next ha =>
      rw [List.append_assoc]
      exact stops_gap ha (stops_comma _)

theorem turn_close {a : Bytes} (ha : Gap a) (hc : isSpace close = false) (x : Bytes) :
    ∃ lt, turn close first (a ++ close :: x) = .ok (.close x lt) := by
  have hskip : skipSpace (a ++ close :: x) = close :: x := (skipSpace_gap ha _).trans (skipSpace_cons hc x)
  have hlt : x.length < (a ++ close :: x).length := by
    rw [List.length_append, List.length_cons]
    omega
  unfold turn
  split
  next h => rw [hskip] at h; cases h
  next b t h =>
    rw [hskip] at h
    cases h
    exact ⟨hlt, if_pos rfl⟩

theorem turn_first {a : Bytes} {b : UInt8} (ha : Gap a) (hb : isSpace b = false) (hne : b ≠ close)
    (t : Bytes) : ∃ le, turn close true (a ++ b :: t) = .ok (.item (b :: t) le) := by
  have hskip : skipSpace (a ++ b :: t) = b :: t := (skipSpace_gap ha _).trans (skipSpace_cons hb t)
  have hle : (b :: t).length ≤ (a ++ b :: t).length := (List.suffix_append a _).length_le
  unfold turn
  split
  next h => rw [hskip] at h; cases h
  next b' t' h =>
    rw [hskip] at h
    cases h
    exact ⟨hle, by rw [if_neg hne, if_pos rfl]⟩

theorem turn_next {a a' : Bytes} {b : UInt8} (ha : Gap a) (ha' : Gap a') (hcomma : comma ≠ close)
    (hb : isSpace b = false) (hne : b ≠ close) (t : Bytes) :
    ∃ le, turn close false (a ++ comma :: (a' ++ b :: t)) = .ok (.item (b :: t) le) := by
  have hskip : skipSpace (a ++ comma :: (a' ++ b :: t)) = comma :: (a' ++ b :: t) :=
    (skipSpace_gap ha _).trans (skipSpace_cons (by decide) _)
  have hskip' : skipSpace (a' ++ b :: t) = b :: t := (skipSpace_gap ha' _).trans (skipSpace_cons hb t)
  have hle : (b :: t).length ≤ (a ++ comma :: (a' ++ b :: t)).length := by
    simp only [List.length_append, List.length_cons]
    omega
  unfold turn
  split
  next h => rw [hskip] at h; cases h
  next c u h =>
    rw [hskip] at h
    cases h
    rw [if_neg hcomma, if_neg (by decide), if_pos rfl]
    split
    next h' => rw [hskip'] at h'; cases h'
    next c' u' h' =>
      rw [hskip'] at h'
      cases h'
      exact ⟨hle, if_neg hne⟩

theorem turn_row (hc : close = closeList ∨ close = closeRecord) (h : Row close first ps s)
    (hps : ∀ p ∈ ps, Begins p) :
    (ps = [] ∧ ∀ x, ∃ lt, turn close first (s ++ x) = .ok (.close x lt)) ∨
    ∃ p qs r, ps = p :: qs ∧ Row close false qs r ∧
      ∀ x, ∃ le, turn close first (s ++ x) = .ok (.item (p ++ (r ++ x)) le) := by
  have hspace : isSpace close = false ∧ comma ≠ close := by rcases hc with rfl | rfl <;> decide
  have hne {b : UInt8} (hl : b ≠ closeList) (hr : b ≠ closeRecord) : b ≠ close := by
    rcases hc with rfl | rfl
    · exact hl
    · exact hr
  cases h with
  | close ha =>
      refine .inl ⟨rfl, fun x => ?_⟩
      rw [List.append_assoc]
      exact turn_close ha hspace.1 x
  | @first a p r qs ha hr =>
      refine .inr ⟨p, qs, r, rfl, hr, fun x => ?_⟩
      obtain ⟨b, t, rfl, hb, hl, hrec⟩ := hps p (by simp)
      have hs : a ++ (b :: t ++ r) ++ x = a ++ b :: (t ++ (r ++ x)) := by simp
      rw [hs]
      exact turn_first ha hb (hne hl hrec) (t ++ (r ++ x))
  | @next a a' p r qs ha ha' hr =>
      refine .inr ⟨p, qs, r, rfl, hr, fun x => ?_⟩
      obtain ⟨b, t, rfl, hb, hl, hrec⟩ := hps p (by simp)
      have hs : a ++ comma :: (a' ++ (b :: t ++ r)) ++ x = a ++ comma :: (a' ++ b :: (t ++ (r ++ x))) := by simp
      rw [hs]
      exact turn_next ha ha' hspace.2 hb (hne hl hrec) (t ++ (r ++ x))

/-- What the reader makes of a value that stands alone. -/
def Reader.reads (r : Reader α) (v : Bytes) : Except Fault α := (result (r v)).map Prod.fst

/-- The reader makes the same of a value wherever it stands, and leaves what stands after it. -/
def Reader.Apt (r : Reader α) : Prop :=
  ∀ v, IsValue v → ∀ a x, Gap a → Stops x → result (r (a ++ (v ++ x))) = (r.reads v).map (·, x)

theorem Reader.Apt.of {r : Reader α} (h : ∀ v, IsValue v → ∃ e : Except Fault α, ∀ a x, Gap a → Stops x →
    result (r (a ++ (v ++ x))) = e.map (·, x)) : r.Apt := by
  intro v hv
  obtain ⟨e, he⟩ := h v hv
  have hreads : r.reads v = e := by
    have hv := he [] [] gap_nil Stops.nil
    rw [List.nil_append, List.append_nil] at hv
    rw [reads, hv]
    cases e <;> rfl
  rw [hreads]
  exact he

theorem Reader.Apt.map {β : Type} {r : Reader α} (h : r.Apt) (f : α → β) : (r.map f).Apt := by
  refine .of fun v hv => ⟨(r.reads v).map f, fun a x ha hx => ?_⟩
  rw [result_map, h v hv a x ha hx]
  cases r.reads v <;> rfl

theorem Reader.reads_map {β : Type} (r : Reader α) (f : α → β) (v : Bytes) :
    (r.map f).reads v = (r.reads v).map f := by
  rw [reads, reads, result_map]
  cases result (r v) <;> rfl

theorem apt_spaced {f : (b : UInt8) → (t : Bytes) → Except Fault (Read α (b :: t))}
    (h : ∀ b t, IsValue (b :: t) → ∃ e : Except Fault α, ∀ x, Stops x → result (f b (t ++ x)) = e.map (·, x)) :
    Reader.Apt (spaced f) := by
  refine .of fun v hv => ?_
  obtain ⟨b, t, rfl, hb, -⟩ := hv.begins
  obtain ⟨e, he⟩ := h b t hv
  refine ⟨e, fun a x ha hx => ?_⟩
  rw [← he x hx]
  exact result_spaced ((skipSpace_gap ha _).trans (skipSpace_cons hb _))

theorem result_itemsFrom {item : Reader α} {t : Bytes} {le : t.length ≤ s.length}
    (h : turn closeList first s = .ok (.item t le)) :
    result (itemsFrom item first s) = do
      let (v, r) ← result (item t)
      let (vs, r') ← result (itemsFrom item false r)
      return (v :: vs, r') := by
  rw [itemsFrom, h]
  simp only [bind, Except.bind]
  cases item t with
  | error f => rfl
  | ok v =>
      simp only [result_ok]
      cases itemsFrom item false v.rest <;> rfl

theorem itemsFrom_row {item : Reader α} (hi : item.Apt) (h : Row closeList first ps s)
    (hps : ∀ p ∈ ps, IsValue p) (x : Bytes) :
    result (itemsFrom item first (s ++ x)) = (ps.mapM item.reads).map (·, x) := by
  induction ps generalizing first s with
  | nil =>
      rcases turn_row (.inl rfl) h fun p hp => (hps p hp).begins with ⟨-, ht⟩ | ⟨_, _, _, h, -⟩
      · obtain ⟨_, ht⟩ := ht x
        rw [itemsFrom, ht]
        rfl
      · cases h
  | cons p ps ih =>
      rcases turn_row (.inl rfl) h fun p hp => (hps p hp).begins with ⟨h, -⟩ | ⟨_, _, r, he, hr, ht⟩
      · cases h
      · cases he
        obtain ⟨_, ht⟩ := ht x
        obtain ⟨hp, hrest⟩ := List.forall_mem_cons.1 hps
        have hitem := hi p hp [] (r ++ x) gap_nil (hr.stops (.inl rfl) x)
        rw [List.nil_append] at hitem
        rw [result_itemsFrom ht, hitem, List.mapM_cons]
        cases item.reads p with
        | error f => rfl
        | ok v =>
            simp only [bind, Except.bind, Except.map, ih hr hrest]
            cases ps.mapM item.reads <;> rfl

end EntityGen.Json
