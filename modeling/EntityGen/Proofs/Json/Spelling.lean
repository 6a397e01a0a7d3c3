import EntityGen.Proofs.Json.Reading
import Mathlib.Data.List.TakeWhile

namespace EntityGen.Json

open Text.Utf8 (Bytes)

variable {α β : Type} {s t x : Bytes} {b : UInt8}

theorem map_ok {f : α → β} {r : Reader α} {c : β} (h : result (r.map f s) = .ok (c, x)) :
    ∃ a, result (r s) = .ok (a, x) ∧ f a = c := by
  rw [result_map] at h
  obtain ⟨⟨a, y⟩, hr, he⟩ := ok_of_map h
  cases he
  exact ⟨a, hr, rfl⟩

theorem skipSpace_spec (s : Bytes) : ∃ g, Gap g ∧ s = g ++ skipSpace s :=
  ⟨s.takeWhile isSpace, fun _ hb => List.mem_takeWhile_imp hb, List.takeWhile_append_dropWhile.symm⟩

theorem spaced_ok {f : (b : UInt8) → (t : Bytes) → Except Fault (Read α (b :: t))} {a : α}
    (h : result (spaced f s) = .ok (a, x)) : ∃ g b t, Gap g ∧ s = g ++ b :: t ∧ result (f b t) = .ok (a, x) := by
  obtain ⟨g, hg, hs⟩ := skipSpace_spec s
  cases hskip : skipSpace s with
  | nil =>
      rw [spaced] at h
      split at h
      next => cases h
      next h' => rw [hskip] at h'; cases h'
  | cons b t =>
      rw [result_spaced hskip] at h
      exact ⟨g, b, t, hg, by rw [← hskip]; exact hs, h⟩

theorem wordStep_ok {w : Bytes} (h : wordStep w s = .ok x) : s = w ++ x := by
  fun_induction wordStep w s with
  | case1 s => exact Except.ok.inj h
  | case2 => cases h
  | case3 c w s ih => rw [ih h, List.cons_append]
  | case4 => cases h

theorem word_ok {c : UInt8} {w : Bytes} {v a : α} (h : result (word c w v s) = .ok (a, x)) :
    a = v ∧ s = c :: w ++ x := by
  rw [word, Reader.ofStep] at h
  split at h
  next e =>
    obtain ⟨y, hy, he⟩ := ok_of_map e
    cases he
    cases h
    exact ⟨rfl, wordStep_ok hy⟩
  · cases h

variable {short : Fault}

theorem digits_ok {ds : Bytes} (h : digits short s = .ok (ds, x)) : Digits ds ∧ s = ds ++ x := by
  unfold digits at h
  split at h
  · cases h
  next b t =>
    split at h
    next hb =>
      cases h
      refine ⟨⟨by simp, ?_⟩, by rw [List.cons_append, List.takeWhile_append_dropWhile]⟩
      exact List.forall_mem_cons.2 ⟨hb, fun _ hd => List.mem_takeWhile_imp hd⟩
    · cases h

theorem digits_mapped {f : Bytes × Bytes → β × Bytes} {c : β} (h : (digits short s).map f = .ok (c, x))
    (hf : ∀ p, (f p).2 = p.2) : ∃ ds, Digits ds ∧ s = ds ++ x := by
  obtain ⟨⟨ds, y⟩, hds, he⟩ := ok_of_map h
  have hy : y = x := (hf (ds, y)).symm.trans (congrArg Prod.snd he)
  exact ⟨ds, digits_ok (hy ▸ hds)⟩

theorem wholeDigits_ok {w : Bytes} (h : wholeDigits short s = .ok (w, x)) : Whole w ∧ s = w ++ x := by
  unfold wholeDigits at h
  split at h
  · split at h
    · cases h
    · cases h
      exact ⟨.zero, rfl⟩
  next hne =>
    obtain ⟨hd, rfl⟩ := digits_ok h
    refine ⟨?_, rfl⟩
    cases w with
    | nil => exact absurd rfl hd.nonempty
    | cons d w =>
        by_cases hz : d = 0x30
        · subst hz
          cases w with
          | nil => exact .zero
          | cons e w => exact absurd rfl (hne e (w ++ x))
        · exact .digits hz hd

theorem fractionDigits_ok {f : Option Bytes} (h : fractionDigits short s = .ok (f, x)) :
    ∃ w, Fraction w ∧ s = w ++ x := by
  unfold fractionDigits at h
  split at h
  · obtain ⟨ds, hd, rfl⟩ := digits_mapped h fun _ => rfl
    exact ⟨_, .some hd, rfl⟩
  · cases h
    exact ⟨[], .none, rfl⟩

theorem signedDigits_ok {n : Int} (h : signedDigits short s = .ok (n, x)) :
    ∃ ds, Digits ds ∧ (s = ds ++ x ∨ ∃ sign, (sign = 0x2B ∨ sign = 0x2D) ∧ s = sign :: (ds ++ x)) := by
  unfold signedDigits at h
  split at h
  · obtain ⟨ds, hd, rfl⟩ := digits_mapped h fun _ => rfl
    exact ⟨ds, hd, .inr ⟨_, .inl rfl, rfl⟩⟩
  · obtain ⟨ds, hd, rfl⟩ := digits_mapped h fun _ => rfl
    exact ⟨ds, hd, .inr ⟨_, .inr rfl, rfl⟩⟩
  · obtain ⟨ds, hd, rfl⟩ := digits_mapped h fun _ => rfl
    exact ⟨ds, hd, .inl rfl⟩

theorem exponentValue_ok {n : Option Int} (h : exponentValue short s = .ok (n, x)) :
    ∃ w, Exponent w ∧ s = w ++ x := by
  unfold exponentValue at h
  split at h
  next b t =>
    split at h
    next hb =>
      obtain ⟨⟨n, y⟩, hs, he⟩ := ok_of_map h
      cases he
      obtain ⟨ds, hd, rfl | ⟨sign, hsign, rfl⟩⟩ := signedDigits_ok hs
      · exact ⟨b :: ds, .plain hb hd, rfl⟩
      · exact ⟨b :: sign :: ds, .signed hb hsign hd, rfl⟩
    · cases h
      exact ⟨[], .none, rfl⟩
  · cases h
    exact ⟨[], .none, rfl⟩

theorem numeralStep_ok {n : Numeral} (h : numeralStep short s = .ok (n, x)) : ∃ w, IsNumber w ∧ s = w ++ x := by
  obtain ⟨⟨w, t⟩, hreadw, h⟩ := ok_of_bind h
  obtain ⟨⟨f, u⟩, hreadf, h⟩ := ok_of_bind h
  obtain ⟨⟨e, y⟩, hreade, h⟩ := ok_of_bind h
  cases h
  obtain ⟨hw, hs⟩ := wholeDigits_ok hreadw
  obtain ⟨f, hf, rfl⟩ := fractionDigits_ok hreadf
  obtain ⟨e, he, rfl⟩ := exponentValue_ok hreade
  split at hs
  next hsign =>
    obtain ⟨t, rfl⟩ := List.head?_eq_some_iff.1 hsign
    rw [List.tail_cons] at hs
    exact ⟨_, .negative hw hf he, by rw [hs]; simp⟩
  · exact ⟨_, .positive hw hf he, by rw [hs]; simp⟩

theorem number_ok {n : Number} (h : result (number s) = .ok (n, x)) : ∃ w, IsNumber w ∧ s = w ++ x := by
  rw [number] at h
  cases hn : numeral .ended s with
  | error f => rw [hn] at h; cases h
  | ok r =>
      have hstep : numeralStep .ended s = .ok (r.value, r.rest) := by rw [← result_numeral, hn]; rfl
      simp only [hn, bind, Except.bind] at h
      split at h
      · cases h
        exact numeralStep_ok hstep
      · cases h

theorem unit_ok {n : Nat} (h : result (unit s) = .ok (n, x)) :
    ∃ a b c d, (∀ y ∈ [a, b, c, d], hexDigit? y ≠ none) ∧ s = a :: b :: c :: d :: x := by
  unfold unit at h
  split at h
  next a b c d t =>
    split at h
    next ha hb hc hd =>
      cases h
      refine ⟨a, b, c, d, ?_, rfl⟩
      simp [ha, hb, hc, hd]
    · cases h
  · cases h

/-- What is read after `u` is part of a string. -/
def Escapes (u : Reader Bytes) : Prop := ∀ s c x, result (u s) = .ok (c, x) →
  ∃ w, s = w ++ x ∧ ∀ v, IsText v → IsText (backslash :: 0x75 :: (w ++ v))

theorem octet_ok {r : Reader α} {a : α} (h : result (octet b r s) = .ok (a, x)) :
    ∃ t, s = b :: t ∧ result (r t) = .ok (a, x) := by
  cases s with
  | nil => cases h
  | cons c t =>
      by_cases hc : c = b
      · subst hc
        rw [result_octet] at h
        exact ⟨t, rfl, h⟩
      · rw [result_octet_ne _ hc] at h
        cases h

theorem unit_escapes : Escapes (unit.map fun _ => []) := by
  intro s c x h
  obtain ⟨n, hn, -⟩ := map_ok h
  obtain ⟨a, b, c, d, hu, rfl⟩ := unit_ok hn
  exact ⟨[a, b, c, d], rfl, fun v hv => .unit hu hv⟩

theorem unitEscape_escapes : Escapes unitEscape := by
  intro s c x h
  cases hn : unit s with
  | error f => rw [unitEscape, hn] at h; cases h
  | ok r =>
      obtain ⟨a, b, c, d, hu, hs⟩ := unit_ok (congrArg result hn)
      simp only [unitEscape, hn, bind, Except.bind] at h
      split at h
      · cases h
      split at h
      · cases hm : lowUnit r.rest with
        | error f => simp only [hm] at h; cases h
        | ok m =>
            obtain ⟨t, ht, hmark⟩ := octet_ok (congrArg result hm)
            obtain ⟨t', rfl, hunit⟩ := octet_ok hmark
            obtain ⟨a', b', c', d', hu', rfl⟩ := unit_ok hunit
            simp only [hm] at h
            split at h
            · simp only [pure, Except.pure, result_ok, Except.ok.injEq, Prod.mk.injEq] at h
              obtain ⟨-, rfl⟩ := h
              refine ⟨[a, b, c, d, backslash, 0x75, a', b', c', d'], ?_, fun v hv => ?_⟩
              · exact hs.trans (congrArg (fun y => a :: b :: c :: d :: y) ht)
              · exact .unit hu (.unit hu' hv)
            · cases h
      · cases h
        exact ⟨[a, b, c, d], hs, fun v hv => .unit hu hv⟩

theorem escape_ok {u : Reader Bytes} (hu : Escapes u) {c : Bytes} (h : result (escape u s) = .ok (c, x)) :
    ∃ w, s = w ++ x ∧ ∀ v, IsText v → IsText (backslash :: (w ++ v)) := by
  cases s with
  | nil => cases h
  | cons b t =>
      by_cases hb : b = 0x75
      · subst hb
        rw [result_escape_unit] at h
        obtain ⟨w, rfl, hw⟩ := hu _ _ _ h
        exact ⟨0x75 :: w, rfl, hw⟩
      · simp only [escape, if_neg hb] at h
        split at h
        next hc =>
          cases h
          exact ⟨[b], rfl, fun v hv => .short hc hv⟩
        · cases h

theorem content_ok {u : Reader Bytes} (hu : Escapes u) {c : Bytes} (h : result (content u s) = .ok (c, x)) :
    ∃ v, IsText v ∧ s = v ++ quote :: x := by
  induction hl : s.length using Nat.strongRecOn generalizing s c with
  | ind n ih =>
      subst hl
      cases s with
      | nil => rw [content] at h; cases h
      | cons b t =>
          by_cases hq : b = quote
          · subst hq
            rw [result_content_quote] at h
            cases h
            exact ⟨[], .nil, rfl⟩
          by_cases hb : b = backslash
          · subst hb
            rw [result_content_escape] at h
            obtain ⟨⟨e, r⟩, he, h⟩ := ok_of_bind h
            obtain ⟨⟨c, y⟩, hc, h⟩ := ok_of_bind h
            cases h
            obtain ⟨w, rfl, hw⟩ := escape_ok hu he
            obtain ⟨v, hv, rfl⟩ := ih r.length (by simp only [List.length_cons, List.length_append]; omega) hc rfl
            exact ⟨_, hw v hv, by simp⟩
          by_cases hc : b < 0x20
          · rw [content, if_neg hq, if_neg hb, if_pos hc] at h
            cases h
          · rw [result_content_octet u hq hb hc] at h
            obtain ⟨⟨c, y⟩, hc', he⟩ := ok_of_map h
            cases he
            obtain ⟨v, hv, rfl⟩ := ih t.length (by simp) hc' rfl
            exact ⟨b :: v, .octet hq hb hc hv, rfl⟩

theorem text_ok {v : String} (h : result (text s) = .ok (v, x)) : ∃ w, IsText w ∧ s = w ++ quote :: x := by
  cases hc : content unitEscape s with
  | error f => simp only [text, hc, bind, Except.bind] at h; cases h
  | ok c =>
      simp only [text, hc, bind, Except.bind] at h
      split at h
      · cases h
        exact content_ok unitEscape_escapes (congrArg result hc)
      · cases h

theorem passText_ok (h : result (passText s) = .ok ((), x)) : ∃ w, IsText w ∧ s = w ++ quote :: x := by
  obtain ⟨c, hc, -⟩ := map_ok h
  exact content_ok unit_escapes hc

theorem key_ok {k : String} (h : result (key s) = .ok (k, x)) : ∃ w, IsText w ∧ s = quote :: (w ++ quote :: x) := by
  cases s with
  | nil => cases h
  | cons b t =>
      by_cases hb : b = quote
      · subst hb
        rw [key, if_pos rfl, result_past] at h
        obtain ⟨w, hw, rfl⟩ := text_ok h
        exact ⟨w, hw, rfl⟩
      · rw [key, if_neg hb] at h
        cases h

end EntityGen.Json
