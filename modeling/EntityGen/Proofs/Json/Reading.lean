import EntityGen.Proofs.Json.Grammar

namespace EntityGen.Json

open Text.Utf8 (Bytes)

variable {α β : Type} {s t x : Bytes}

/-- What was read, and what is left. -/
def result (e : Except Fault (Read α s)) : Except Fault (α × Bytes) := e.map fun a => (a.value, a.rest)

@[simp]
theorem result_ok (a : Read α s) : result (.ok a) = .ok (a.value, a.rest) := rfl

@[simp]
theorem result_error (f : Fault) : result (.error f : Except Fault (Read α s)) = .error f := rfl

theorem result_eq_ok {e : Except Fault (Read α s)} {a : α} (h : result e = .ok (a, x)) :
    ∃ lt, e = .ok ⟨a, x, lt⟩ := by
  cases e with
  | error f => cases h
  | ok r =>
      cases h
      exact ⟨r.shorter, rfl⟩

theorem result_eq_error {e : Except Fault (Read α s)} {f : Fault} (h : result e = .error f) : e = .error f := by
  cases e with
  | error f' =>
      cases h
      rfl
  | ok r => cases h

theorem result_within (e : Except Fault (Read α t)) (h : t.length ≤ s.length) :
    result (e.map (·.within h)) = result e := by
  cases e <;> rfl

theorem result_mapped (f : α → β) (e : Except Fault (Read α s)) :
    result (e.map (Read.map f)) = (result e).map fun p => (f p.1, p.2) := by
  cases e <;> rfl

theorem result_map (f : α → β) (r : Reader α) (s : Bytes) :
    result (r.map f s) = (result (r s)).map fun p => (f p.1, p.2) := result_mapped f (r s)

theorem result_past (b : UInt8) (r : Reader α) (t : Bytes) : result (past b r t) = result (r t) :=
  result_within (r t) _

theorem ok_of_bind {e : Except Fault α} {f : α → Except Fault β} {b : β} (h : e >>= f = .ok b) :
    ∃ a, e = .ok a ∧ f a = .ok b := by
  cases e with
  | error => cases h
  | ok a => exact ⟨a, rfl, h⟩

theorem skipSpace_gap {a : Bytes} (ha : Gap a) (s : Bytes) : skipSpace (a ++ s) = skipSpace s :=
  List.dropWhile_append_of_pos ha

theorem skipSpace_cons {b : UInt8} (hb : isSpace b = false) (t : Bytes) : skipSpace (b :: t) = b :: t :=
  List.dropWhile_cons_of_neg (by simp [hb])

theorem result_spaced {r : (b : UInt8) → (t : Bytes) → Except Fault (Read α (b :: t))} {b : UInt8}
    (h : skipSpace s = b :: t) : result (spaced r s) = result (r b t) := by
  rw [spaced]
  split
  next h' => rw [h] at h'; cases h'
  next b' t' h' =>
    rw [h] at h'
    cases h'
    exact result_within _ _

theorem wordStep_append (w x : Bytes) : wordStep w (w ++ x) = .ok x := by
  induction w with
  | nil => rfl
  | cons c w ih => rw [List.cons_append, wordStep, if_pos rfl, ih]

theorem result_word (c : UInt8) (w : Bytes) (v : α) (x : Bytes) :
    result (word c w v (c :: (w ++ x))) = .ok (v, x) := by
  have hstep : wordStep (c :: w) (c :: (w ++ x)) = .ok x := wordStep_append (c :: w) x
  rw [word, Reader.ofStep]
  split
  next a r e =>
    rw [hstep] at e
    cases e
    rfl
  next f e =>
    rw [hstep] at e
    cases e

theorem Stops.nil : Stops [] := ⟨fun _ h => absurd h (by simp), by simp, by simp⟩

/-- Digits before `x` end there. -/
def NoDigit (x : Bytes) : Prop := ∀ b, x.head? = some b → isDigit b = false

theorem digits_append {short : Fault} {ds : Bytes} (h : Digits ds) (hx : NoDigit x) :
    digits short (ds ++ x) = .ok (ds, x) := by
  obtain ⟨hne, hall⟩ := h
  have hstop : x.takeWhile isDigit = [] ∧ x.dropWhile isDigit = x := by
    cases x with
    | nil => exact ⟨rfl, rfl⟩
    | cons b t => simp [hx b rfl]
  cases ds with
  | nil => contradiction
  | cons d ds =>
      obtain ⟨hd, hds⟩ := List.forall_mem_cons.1 hall
      rw [List.cons_append, digits, if_pos hd, List.takeWhile_append_of_pos hds,
        List.dropWhile_append_of_pos hds, hstop.1, hstop.2, List.append_nil]

theorem wholeDigits_append (short : Fault) {w : Bytes} (h : Whole w) (hx : NoDigit x) :
    wholeDigits short (w ++ x) = .ok (w, x) := by
  cases h with
  | zero =>
      cases x with
      | nil => rfl
      | cons b t => simp [wholeDigits, hx b rfl]
  | digits hd h =>
      rw [← digits_append h hx, wholeDigits]
      rintro b t he
      rw [List.cons_append, List.cons.injEq] at he
      exact hd he.1

theorem fractionDigits_append {f : Bytes} (h : Fraction f) : ∃ ds, ∀ short x, NoDigit x →
    x.head? ≠ some 0x2E → fractionDigits short (f ++ x) = .ok (ds, x) := by
  cases h with
  | none =>
      refine ⟨none, fun short x _ hx => ?_⟩
      rw [List.nil_append, fractionDigits]
      rintro t rfl
      exact hx rfl
  | @some ds h =>
      refine ⟨some ds, fun short x hd _ => ?_⟩
      rw [List.cons_append, fractionDigits, digits_append h hd]
      rfl

theorem signedDigits_append {ds : Bytes} (h : Digits ds) : ∃ n, ∀ short x, NoDigit x →
    signedDigits short (ds ++ x) = .ok (n, x) := by
  refine ⟨digitsValue ds, fun short x hx => ?_⟩
  rw [signedDigits, digits_append h hx]
  · rfl
  all_goals
    rintro t he
    obtain ⟨hne, hall⟩ := h
    cases ds with
    | nil => contradiction
    | cons d ds =>
        have hd := hall d (by simp)
        rw [List.cons_append, List.cons.injEq] at he
        rw [he.1] at hd
        exact absurd hd (by decide)

theorem exponentValue_append {e : Bytes} (h : Exponent e) : ∃ n, ∀ short x, Stops x →
    exponentValue short (e ++ x) = .ok (n, x) := by
  cases h with
  | none =>
      refine ⟨none, fun short x hx => ?_⟩
      cases x with
      | nil => rfl
      | cons b t =>
          have hb := hx.exponent
          simp only [List.head?_cons, ne_eq, Option.some.injEq] at hb
          rw [List.nil_append, exponentValue, if_neg (not_or.2 hb)]
  | plain he h =>
      obtain ⟨n, hn⟩ := signedDigits_append h
      refine ⟨some n, fun short x hx => ?_⟩
      rw [List.cons_append, exponentValue, if_pos he, hn short x hx.digit]
      rfl
  | @signed _ _ ds he hs h =>
      rcases hs with rfl | rfl
      · refine ⟨some (digitsValue ds), fun short x hx => ?_⟩
        rw [List.cons_append, List.cons_append, exponentValue, if_pos he, signedDigits,
          digits_append h hx.digit]
        rfl
      · refine ⟨some (-digitsValue ds), fun short x hx => ?_⟩
        rw [List.cons_append, List.cons_append, exponentValue, if_pos he, signedDigits,
          digits_append h hx.digit]
        rfl

theorem Exponent.noDigit {e : Bytes} (h : Exponent e) (hx : Stops x) :
    NoDigit (e ++ x) ∧ (e ++ x).head? ≠ some 0x2E := by
  cases h with
  | none => exact ⟨hx.digit, hx.point⟩
  | plain he | signed he => rcases he with rfl | rfl <;> exact ⟨fun _ h => Option.some.inj h ▸ rfl, by simp⟩

theorem Fraction.noDigit {f : Bytes} (h : Fraction f) (hx : NoDigit x) : NoDigit (f ++ x) := by
  cases h with
  | none => exact hx
  | some => exact fun _ h => Option.some.inj h ▸ rfl

theorem Whole.head_digit {w : Bytes} (h : Whole w) : ∃ d ds, w = d :: ds ∧ isDigit d = true := by
  cases h with
  | zero => exact ⟨_, _, rfl, rfl⟩
  | digits _ h => exact ⟨_, _, rfl, h.digits _ (by simp)⟩

theorem numeralStep_append {v : Bytes} (h : IsNumber v) : ∃ n, ∀ short x, Stops x →
    numeralStep short (v ++ x) = .ok (n, x) := by
  cases h with
  | positive hw hf he =>
      obtain ⟨ds, hds⟩ := fractionDigits_append hf
      obtain ⟨e, hex⟩ := exponentValue_append he
      obtain ⟨d, w, rfl, hd⟩ := hw.head_digit
      have hsign : some d ≠ some 0x2D := fun h => absurd (Option.some.inj h ▸ hd) (by decide)
      refine ⟨⟨false, d :: w, ds, e⟩, fun short x hx => ?_⟩
      obtain ⟨hdigit, hpoint⟩ := he.noDigit hx
      have hwhole := wholeDigits_append short hw (hf.noDigit hdigit)
      simp only [List.append_assoc, List.cons_append] at hwhole ⊢
      simp only [numeralStep, List.head?_cons, hsign, decide_false, if_false, hwhole, bind,
        Except.bind, hds short _ hdigit hpoint, hex short x hx]
      rfl
  | @negative w _ _ hw hf he =>
      obtain ⟨ds, hds⟩ := fractionDigits_append hf
      obtain ⟨e, hex⟩ := exponentValue_append he
      refine ⟨⟨true, w, ds, e⟩, fun short x hx => ?_⟩
      obtain ⟨hdigit, hpoint⟩ := he.noDigit hx
      have hwhole := wholeDigits_append short hw (hf.noDigit hdigit)
      simp only [List.append_assoc, List.cons_append] at hwhole ⊢
      simp only [numeralStep, List.head?_cons, decide_true, if_true, List.tail_cons, hwhole, bind,
        Except.bind, hds short _ hdigit hpoint, hex short x hx]
      rfl

theorem result_numeral (short : Fault) (s : Bytes) : result (numeral short s) = numeralStep short s := by
  rw [numeral, Reader.ofStep]
  split
  next a r e => exact e.symm
  next f e => exact e.symm

theorem number_append {v : Bytes} (h : IsNumber v) : ∃ e : Except Fault Number, ∀ x, Stops x →
    result (number (v ++ x)) = e.map (·, x) := by
  obtain ⟨n, hn⟩ := numeralStep_append h
  refine ⟨(n.number?).elim (.error .malformed) .ok, fun x hx => ?_⟩
  obtain ⟨_, hnumeral⟩ := result_eq_ok ((result_numeral .ended (v ++ x)).trans (hn .ended x hx))
  simp only [number, hnumeral, bind, Except.bind]
  cases n.number? <;> rfl

theorem result_content_quote (u : Reader Bytes) (s : Bytes) :
    result (content u (quote :: s)) = .ok ([], s) := by
  rw [content, if_pos rfl]
  rfl

theorem result_content_octet (u : Reader Bytes) {b : UInt8} (hq : b ≠ quote) (hb : b ≠ backslash)
    (hc : ¬ b < 0x20) (s : Bytes) :
    result (content u (b :: s)) = (result (content u s)).map fun p => (b :: p.1, p.2) := by
  rw [content, if_neg hq, if_neg hb, if_neg hc]
  cases content u s <;> rfl

theorem result_content_escape (u : Reader Bytes) (s : Bytes) :
    result (content u (backslash :: s)) = do
      let (e, r) ← result (escape u s)
      let (c, r') ← result (content u r)
      return (e ++ c, r') := by
  rw [content, if_neg (by decide), if_pos rfl]
  cases escape u s with
  | error f => rfl
  | ok e =>
      simp only [result_ok, bind, Except.bind]
      cases content u e.rest <;> rfl

theorem result_escape_short (u : Reader Bytes) {b c : UInt8} (hb : shortEscape? b = some c) (s : Bytes) :
    result (escape u (b :: s)) = .ok ([c], s) := by
  have hu : b ≠ 0x75 := by
    rintro rfl
    cases hb
  simp only [escape, if_neg hu, hb]
  rfl

theorem result_escape_unit (u : Reader Bytes) (s : Bytes) : result (escape u (0x75 :: s)) = result (u s) := by
  rw [escape, if_pos rfl, result_past]

theorem result_unit {a b c d : UInt8} (hu : ∀ x ∈ [a, b, c, d], hexDigit? x ≠ none) :
    ∃ n, ∀ s, result (unit (a :: b :: c :: d :: s)) = .ok (n, s) := by
  simp only [List.forall_mem_cons, Option.ne_none_iff_exists'] at hu
  obtain ⟨⟨a', ha⟩, ⟨b', hb⟩, ⟨c', hc⟩, ⟨d', hd⟩, -⟩ := hu
  refine ⟨((a' * 16 + b') * 16 + c') * 16 + d', fun s => ?_⟩
  simp only [unit, ha, hb, hc, hd]
  rfl

theorem result_octet (r : Reader α) (b : UInt8) (s : Bytes) : result (octet b r (b :: s)) = result (r s) := by
  rw [octet, if_pos rfl, result_past]

theorem result_octet_ne (r : Reader α) {b c : UInt8} (h : c ≠ b) (s : Bytes) :
    result (octet b r (c :: s)) = .error .malformed := by
  rw [octet, if_neg h]
  rfl

theorem lowUnit_cases {v : Bytes} (h : IsText v) :
    (∀ x, result (lowUnit (v ++ quote :: x)) = .error .malformed) ∨
    ∃ n w, IsText w ∧ w.length < v.length ∧ ∀ x, result (lowUnit (v ++ quote :: x)) = .ok (n, w ++ quote :: x) := by
  cases h with
  | nil => exact .inl fun x => result_octet_ne _ (by decide) x
  | octet _ hb => exact .inl fun x => result_octet_ne _ hb _
  | @short b c s hb =>
      refine .inl fun x => ?_
      have hu : b ≠ 0x75 := by
        rintro rfl
        cases hb
      rw [lowUnit, List.cons_append, result_octet]
      exact result_octet_ne _ hu _
  | unit hu hs =>
      obtain ⟨n, hn⟩ := result_unit hu
      refine .inr ⟨n, _, hs, by simp only [List.length_cons]; omega, fun x => ?_⟩
      rw [lowUnit, List.cons_append, result_octet, List.cons_append, result_octet]
      exact hn _

theorem unitEscape_append {a b c d : UInt8} {v : Bytes} (hu : ∀ x ∈ [a, b, c, d], hexDigit? x ≠ none)
    (h : IsText v) :
    (∀ x, result (unitEscape (a :: b :: c :: d :: (v ++ quote :: x))) = .error .malformed) ∨
    ∃ o w, IsText w ∧ w.length ≤ v.length ∧
      ∀ x, result (unitEscape (a :: b :: c :: d :: (v ++ quote :: x))) = .ok (o, w ++ quote :: x) := by
  obtain ⟨n, hn⟩ := result_unit hu
  have hunit : ∀ x, ∃ lt, unit (a :: b :: c :: d :: (v ++ quote :: x)) = .ok ⟨n, v ++ quote :: x, lt⟩ :=
    fun x => result_eq_ok (hn (v ++ quote :: x))
  by_cases hlow : isLow n = true
  · refine .inl fun x => ?_
    obtain ⟨_, hx⟩ := hunit x
    simp only [unitEscape, hx, bind, Except.bind, if_pos hlow, result_error]
  by_cases hhigh : isHigh n = true
  · rcases lowUnit_cases h with hno | ⟨m, w, hw, hlt, hm⟩
    · refine .inl fun x => ?_
      obtain ⟨_, hx⟩ := hunit x
      simp only [unitEscape, hx, bind, Except.bind, if_neg hlow, if_pos hhigh, result_eq_error (hno x),
        result_error]
    · by_cases hpair : isLow m = true
      · refine .inr ⟨octets ((n - 0xD800) * 0x400 + (m - 0xDC00) + 0x10000), w, hw, Nat.le_of_lt hlt, fun x => ?_⟩
        obtain ⟨_, hx⟩ := hunit x
        obtain ⟨_, hl⟩ := result_eq_ok (hm x)
        simp only [unitEscape, hx, bind, Except.bind, if_neg hlow, if_pos hhigh, hl, if_pos hpair,
          pure, Except.pure, result_ok]
      · refine .inl fun x => ?_
        obtain ⟨_, hx⟩ := hunit x
        obtain ⟨_, hl⟩ := result_eq_ok (hm x)
        simp only [unitEscape, hx, bind, Except.bind, if_neg hlow, if_pos hhigh, hl, if_neg hpair, result_error]
  · refine .inr ⟨octets n, v, h, Nat.le_refl _, fun x => ?_⟩
    obtain ⟨_, hx⟩ := hunit x
    simp only [unitEscape, hx, bind, Except.bind, if_neg hlow, if_neg hhigh, pure, Except.pure, result_ok, Read.map]

theorem content_append {v : Bytes} (h : IsText v) : ∃ e : Except Fault Bytes, ∀ x,
    result (content unitEscape (v ++ quote :: x)) = e.map (·, x) := by
  induction hl : v.length using Nat.strongRecOn generalizing v with
  | ind n ih =>
      subst hl
      cases h with
      | nil => exact ⟨.ok [], result_content_quote _⟩
      | @octet b s hq hb hc h =>
          obtain ⟨e, he⟩ := ih s.length (by simp) h rfl
          refine ⟨e.map (b :: ·), fun x => ?_⟩
          rw [List.cons_append, result_content_octet _ hq hb hc, he]
          cases e <;> rfl
      | @short b c s hb h =>
          obtain ⟨e, he⟩ := ih s.length (by simp only [List.length_cons]; omega) h rfl
          refine ⟨e.map (c :: ·), fun x => ?_⟩
          rw [List.cons_append, result_content_escape, List.cons_append, result_escape_short _ hb]
          simp only [bind, Except.bind, he]
          cases e <;> rfl
      | @unit a b c d s hu h =>
          rcases unitEscape_append hu h with hno | ⟨o, w, hw, hle, ho⟩
          · refine ⟨.error .malformed, fun x => ?_⟩
            rw [List.cons_append, result_content_escape, List.cons_append, result_escape_unit]
            simp only [List.cons_append, hno, bind, Except.bind]
            rfl
          · obtain ⟨e, he⟩ := ih w.length (by simp only [List.length_cons]; omega) hw rfl
            refine ⟨e.map (o ++ ·), fun x => ?_⟩
            rw [List.cons_append, result_content_escape, List.cons_append, result_escape_unit]
            simp only [List.cons_append, ho, bind, Except.bind, he]
            cases e <;> rfl

theorem text_append {v : Bytes} (h : IsText v) : ∃ e : Except Fault String, ∀ x,
    result (text (v ++ quote :: x)) = e.map (·, x) := by
  obtain ⟨e, he⟩ := content_append h
  refine ⟨e.bind fun c => (Text.Utf8.decode c).elim (.error .malformed) .ok, fun x => ?_⟩
  have hx := he x
  cases e with
  | error f =>
      simp only [text, result_eq_error hx, bind, Except.bind]
      rfl
  | ok c =>
      obtain ⟨_, hc⟩ := result_eq_ok hx
      simp only [text, hc, bind, Except.bind]
      cases Text.Utf8.decode c <;> rfl

/-- A string that is passed over may break off in the middle of a pair. -/
theorem passText_append {v : Bytes} (h : IsText v) (x : Bytes) :
    result (passText (v ++ quote :: x)) = .ok ((), x) := by
  have hcontent : ∃ c, result (content (unit.map fun _ => []) (v ++ quote :: x)) = .ok (c, x) := by
    induction h with
    | nil => exact ⟨[], result_content_quote _ x⟩
    | octet hq hb hc _ ih =>
        obtain ⟨c, hx⟩ := ih
        exact ⟨_, by rw [List.cons_append, result_content_octet _ hq hb hc, hx]; rfl⟩
    | @short _ o _ hb _ ih =>
        obtain ⟨c, hx⟩ := ih
        refine ⟨[o] ++ c, ?_⟩
        rw [List.cons_append, result_content_escape, List.cons_append, result_escape_short _ hb]
        simp only [bind, Except.bind, hx]
        rfl
    | unit hu _ ih =>
        obtain ⟨c, hx⟩ := ih
        obtain ⟨n, hn⟩ := result_unit hu
        refine ⟨[] ++ c, ?_⟩
        rw [List.cons_append, result_content_escape, List.cons_append, result_escape_unit, result_map]
        simp only [List.cons_append, hn, Except.map, bind, Except.bind, hx]
        rfl
  obtain ⟨c, hc⟩ := hcontent
  rw [passText, result_map, hc]
  rfl

end EntityGen.Json
