import EntityGen.Proofs.Json.Rows

namespace EntityGen.Json

open Text.Utf8 (Bytes)

variable {a a' : Await} {fs : List Frame} {f : Frame} {s s' x w w' : Bytes}

theorem length_le_whole (s : Bytes) : s.length ≤ s.length := Nat.le_refl _

/-- What is left when the brackets around are closed. -/
def passed (a : Await) (fs : List Frame) (s : Bytes) : Except Fault Bytes :=
  (passFrom s a fs s (length_le_whole s)).map (·.rest)

theorem passFrom_rest (le : s.length ≤ w.length) (le' : s.length ≤ w'.length) :
    (passFrom w a fs s le).map (·.rest) = (passFrom w' a fs s le').map (·.rest) := by
  induction hn : s.length using Nat.strongRecOn generalizing a fs s with
  | ind n ih =>
      subst hn
      rw [passFrom, passFrom]
      cases passToken a s with
      | error f => rfl
      | ok r =>
          obtain ⟨m, rest, lt⟩ := r
          have hstep (b : Await) (gs : List Frame) (h : rest.length ≤ w.length) (h' : rest.length ≤ w'.length) :
              (passFrom w b gs rest h).map (·.rest) = (passFrom w' b gs rest h').map (·.rest) :=
            ih rest.length lt h h' rfl
          cases m with
          | done =>
              cases fs with
              | nil => rfl
              | cons f fs => exact hstep _ _ _ _
          | opens f => exact hstep _ _ _ _
          | closes =>
              match fs with
              | [] => rfl
              | [f] => rfl
              | _ :: f :: fs => exact hstep _ _ _ _
          | on b => exact hstep _ _ _ _

/-- What is left when a value in these brackets has ended. -/
def resumed : List Frame → Bytes → Except Fault Bytes
  | [], x => .ok x
  | f :: fs, x => passed (.comma f) (f :: fs) x

theorem passed_done (h : result (passToken a s) = .ok (.done, x)) : passed a fs s = resumed fs x := by
  obtain ⟨lt, h⟩ := result_eq_ok h
  rw [passed, passFrom, h]
  cases fs with
  | nil => rfl
  | cons f fs => exact passFrom_rest _ _

theorem passed_opens (h : result (passToken a s) = .ok (.opens f, x)) :
    passed a fs s = passed (.first f) (f :: fs) x := by
  obtain ⟨lt, h⟩ := result_eq_ok h
  rw [passed, passFrom, h]
  exact passFrom_rest _ _

theorem passed_closes (h : result (passToken a s) = .ok (.closes, x)) :
    passed a (f :: fs) s = resumed fs x := by
  obtain ⟨lt, h⟩ := result_eq_ok h
  rw [passed, passFrom, h]
  cases fs with
  | nil => rfl
  | cons f fs => exact passFrom_rest _ _

theorem passed_on (h : result (passToken a s) = .ok (.on a', x)) : passed a fs s = passed a' fs x := by
  obtain ⟨lt, h⟩ := result_eq_ok h
  rw [passed, passFrom, h]
  exact passFrom_rest _ _

theorem passed_congr (h : result (passToken a s) = result (passToken a' s')) : passed a fs s = passed a' fs s' := by
  cases ht : result (passToken a' s') with
  | error e =>
      rw [ht] at h
      rw [passed, passFrom, result_eq_error h, passed, passFrom, result_eq_error ht]
      rfl
  | ok r =>
      obtain ⟨m, x⟩ := r
      rw [ht] at h
      cases m with
      | done => rw [passed_done h, passed_done ht]
      | opens f => rw [passed_opens h, passed_opens ht]
      | closes =>
          cases fs with
          | nil =>
              obtain ⟨_, h⟩ := result_eq_ok h
              obtain ⟨_, ht⟩ := result_eq_ok ht
              rw [passed, passFrom, h, passed, passFrom, ht]
              rfl
          | cons f fs => rw [passed_closes h, passed_closes ht]
      | on b => rw [passed_on h, passed_on ht]

section Tokens

variable {g t : Bytes} {b : UInt8}

theorem skipSpace_gap_cons (hg : Gap g) (hb : isSpace b = false) : skipSpace (g ++ b :: t) = b :: t :=
  (skipSpace_gap hg _).trans (skipSpace_cons hb t)

theorem Frame.close_cases (f : Frame) : f.close = closeList ∨ f.close = closeRecord := by
  cases f
  · exact .inl rfl
  · exact .inr rfl

theorem Frame.close_not_space (f : Frame) : isSpace f.close = false := by cases f <;> rfl

theorem token_value (hg : Gap g) (hb : isSpace b = false) :
    result (passToken .value (g ++ b :: t)) = result (passValue b t) :=
  result_spaced (skipSpace_gap_cons hg hb)

theorem token_item (hg : Gap g) (hb : isSpace b = false) :
    result (passToken (.item f) (g ++ b :: t)) = result (passItem f b t) :=
  result_spaced (skipSpace_gap_cons hg hb)

theorem token_first (hg : Gap g) (hb : isSpace b = false) (hne : b ≠ f.close) :
    result (passToken (.first f) (g ++ b :: t)) = result (passItem f b t) := by
  refine (result_spaced (skipSpace_gap_cons hg hb)).trans ?_
  dsimp only
  rw [if_neg hne]

theorem token_first_close (hg : Gap g) :
    result (passToken (.first f) (g ++ f.close :: t)) = .ok (.closes, t) := by
  refine (result_spaced (skipSpace_gap_cons hg f.close_not_space)).trans ?_
  dsimp only
  rw [if_pos rfl]
  rfl

theorem token_comma_close (hg : Gap g) :
    result (passToken (.comma f) (g ++ f.close :: t)) = .ok (.closes, t) := by
  refine (result_spaced (skipSpace_gap_cons hg f.close_not_space)).trans ?_
  have hne : f.close ≠ comma := by cases f <;> decide
  dsimp only
  rw [if_neg hne, if_pos rfl]
  rfl

theorem token_comma (hg : Gap g) :
    result (passToken (.comma f) (g ++ comma :: t)) = .ok (.on (.item f), t) := by
  refine (result_spaced (skipSpace_gap_cons hg (by decide))).trans ?_
  dsimp only
  rw [if_pos rfl]
  rfl

theorem token_colon (hg : Gap g) :
    result (passToken .colon (g ++ colon :: t)) = .ok (.on .value, t) := by
  refine (result_spaced (skipSpace_gap_cons hg (by decide))).trans ?_
  dsimp only
  rw [if_pos rfl]
  rfl

end Tokens

def Frame.await (f : Frame) (first : Bool) : Await := if first then .first f else .comma f

theorem Frame.await_first (f : Frame) : f.await true = .first f := rfl

/-- If every piece is passed over to its end, so is a row of them. -/
theorem passed_row {first : Bool} {ps : List Bytes} {r : Bytes} (h : Row f.close first ps r)
    (hb : ∀ p ∈ ps, Begins p)
    (hp : ∀ p ∈ ps, ∀ x, Stops x → passed (.item f) (f :: fs) (p ++ x) = passed (.comma f) (f :: fs) x) :
    passed (f.await first) (f :: fs) (r ++ x) = resumed fs x := by
  induction h with
  | @close first a ha =>
      rw [List.append_assoc]
      cases first with
      | false => exact passed_closes (token_comma_close ha)
      | true => exact passed_closes (token_first_close ha)
  | @first a p r ps ha hr ih =>
      obtain ⟨hbp, hb⟩ := List.forall_mem_cons.1 hb
      obtain ⟨hpp, hp⟩ := List.forall_mem_cons.1 hp
      rw [← ih hb hp, List.append_assoc, List.append_assoc]
      refine Eq.trans ?_ (hpp (r ++ x) (hr.stops f.close_cases x))
      obtain ⟨b, t, rfl, hspace, hl, hrec⟩ := hbp
      have hne : b ≠ f.close := by
        cases f
        · exact hl
        · exact hrec
      refine passed_congr ?_
      rw [List.cons_append]
      exact (token_first ha hspace hne).trans (token_item (g := []) gap_nil hspace).symm
  | @next a a' p r ps ha ha' hr ih =>
      obtain ⟨hbp, hb⟩ := List.forall_mem_cons.1 hb
      obtain ⟨hpp, hp⟩ := List.forall_mem_cons.1 hp
      rw [← ih hb hp, List.append_assoc]
      refine Eq.trans (passed_on (token_comma ha)) ?_
      rw [List.append_eq, List.append_assoc, List.append_assoc]
      refine Eq.trans ?_ (hpp (r ++ x) (hr.stops f.close_cases x))
      obtain ⟨b, t, rfl, hspace, -⟩ := hbp
      refine passed_congr ?_
      rw [List.cons_append]
      exact (token_item ha' hspace).trans (token_item (g := []) gap_nil hspace).symm

theorem head_digit {b : UInt8} (h : isDigit b = true) : head b = .number := by
  have hne {c : UInt8} (hc : isDigit c = false) : b ≠ c := by
    rintro rfl
    rw [h] at hc
    cases hc
  rw [head, if_neg (hne rfl), if_neg (hne rfl), if_neg (hne rfl), if_pos (.inr h)]

theorem IsNumber.head {v : Bytes} (h : IsNumber v) : ∃ b t, v = b :: t ∧ head b = .number := by
  cases h with
  | positive hw =>
      obtain ⟨d, ds, rfl, hd⟩ := hw.head_digit
      exact ⟨d, _, rfl, head_digit hd⟩
  | negative => exact ⟨_, _, rfl, by decide⟩

theorem IsNumber.head_cons {b : UInt8} {t : Bytes} (h : IsNumber (b :: t)) : Json.head b = .number := by
  obtain ⟨_, _, he, hhead⟩ := h.head
  cases he
  exact hhead

theorem passed_start {v x : Bytes} {g : Bytes} (hg : Gap g) (hv : Begins v) :
    passed .value fs (g ++ (v ++ x)) = passed .value fs (v ++ x) := by
  obtain ⟨b, t, rfl, hb, -⟩ := hv
  refine passed_congr ?_
  rw [List.cons_append]
  exact (token_value hg hb).trans (token_value (g := []) gap_nil hb).symm

theorem passed_member {m : Member} (hm : m.Spelled) (hv : Begins m.value)
    (h : passed .value (.record :: fs) (m.value ++ x) = resumed (.record :: fs) x) :
    passed (.item .record) (.record :: fs) (m.text ++ x) = passed (.comma .record) (.record :: fs) x := by
  have htext : m.text ++ x = quote :: (m.key ++ quote :: (m.before ++ colon :: (m.after ++ (m.value ++ x)))) := by
    simp [Member.text]
  have hkey : result (passToken (.item .record) (m.text ++ x)) =
      .ok (.on .colon, m.before ++ colon :: (m.after ++ (m.value ++ x))) := by
    rw [htext]
    refine (token_item (g := []) gap_nil (by decide)).trans ?_
    rw [passItem, if_pos rfl, result_past, result_map, passText_append hm.key]
    rfl
  rw [passed_on hkey, passed_on (token_colon hm.before), passed_start hm.after hv, h]
  rfl

theorem passed_value {v : Bytes} (hv : IsValue v) (fs : List Frame) (hx : Stops x) :
    passed .value fs (v ++ x) = resumed fs x := by
  have token {b : UInt8} {t : Bytes} (hb : isSpace b = false) :
      result (passToken .value (b :: t)) = result (passValue b t) := token_value (g := []) gap_nil hb
  induction hv generalizing fs x with
  | nullWord => exact passed_done ((token rfl).trans (result_word _ _ _ x))
  | trueWord => exact passed_done ((token rfl).trans (result_word _ _ _ x))
  | falseWord => exact passed_done ((token rfl).trans (result_word _ _ _ x))
  | number h =>
      obtain ⟨b, t, rfl, hhead⟩ := h.head
      obtain ⟨n, hn⟩ := numeralStep_append h
      obtain ⟨_, _, he, hb, -⟩ := h.begins
      cases he
      refine passed_done ((token hb).trans ?_)
      simp only [List.append_eq, passValue, hhead]
      rw [result_map, result_numeral, ← List.cons_append, hn _ x hx]
      rfl
  | text h =>
      refine passed_done ((token (by decide)).trans ?_)
      have hhead : head quote = .text := by decide
      simp only [List.append_eq, passValue, hhead]
      rw [result_past, result_map, List.append_assoc, List.singleton_append, passText_append h]
      rfl
  | list h hv ih =>
      refine (passed_opens (f := .list) (x := _ ++ x) (token (by decide))).trans ?_
      rw [← Frame.await_first]
      refine passed_row h (fun p hp => (hv p hp).begins) fun p hp x hx => ?_
      refine Eq.trans ?_ (ih p hp (.list :: fs) hx)
      obtain ⟨b, t, rfl, hb, -⟩ := (hv p hp).begins
      exact passed_congr ((token_item (g := []) gap_nil hb).trans (token hb).symm)
  | record h hm hv ih =>
      refine (passed_opens (f := .record) (x := _ ++ x) (token (by decide))).trans ?_
      rw [← Frame.await_first]
      refine passed_row h (List.forall_mem_map.2 fun m _ => m.begins) ?_
      exact List.forall_mem_map.2 fun m hmem x hx => passed_member (hm m hmem) (hv m hmem).begins (ih m hmem _ hx)

theorem passed_pass (s : Bytes) : passed .value [] s = (pass s).map (·.rest) := rfl

theorem result_pass (h : passed .value [] s = .ok x) : result (pass s) = .ok ((), x) := by
  rw [passed_pass] at h
  cases hs : pass s with
  | error f => rw [hs] at h; cases h
  | ok r =>
      rw [hs] at h
      cases h
      rfl

/-- Every value is passed over. -/
theorem result_pass_value {v : Bytes} (hv : IsValue v) {g : Bytes} (hg : Gap g) (hx : Stops x) :
    result (pass (g ++ (v ++ x))) = .ok ((), x) :=
  result_pass ((passed_start hg hv.begins).trans (passed_value hv [] hx))

theorem pass_apt : pass.Apt := .of fun _ hv => ⟨.ok (), fun _ _ hg hx => result_pass_value hv hg hx⟩

theorem reads_pass {v : Bytes} (hv : IsValue v) : pass.reads v = .ok () := by
  have h := result_pass_value hv (g := []) gap_nil Stops.nil
  rw [List.nil_append, List.append_nil] at h
  rw [Reader.reads, h]
  rfl

end EntityGen.Json
