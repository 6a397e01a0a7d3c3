import EntityGen.Proofs.Json.Passing

namespace EntityGen.Json

open Text.Utf8 (Bytes)

variable {α : Type} {b : UInt8} {t x : Bytes}

theorem IsValue.null_of_head (h : IsValue (b :: t)) (hb : head b = .null) :
    b :: t = [0x6E, 0x75, 0x6C, 0x6C] := by
  cases h with
  | nullWord => rfl
  | number h =>
      rw [h.head_cons] at hb
      cases hb
  | trueWord | falseWord | text | list | record => exact absurd hb (by decide)

theorem IsValue.text_of_head (h : IsValue (b :: t)) (hb : head b = .text) :
    ∃ v, t = v ++ [quote] ∧ IsText v := by
  cases h with
  | text h => exact ⟨_, rfl, h⟩
  | number h =>
      rw [h.head_cons] at hb
      cases hb
  | nullWord | trueWord | falseWord | list | record => exact absurd hb (by decide)

theorem IsValue.list_of_head (h : IsValue (b :: t)) (hb : head b = .list) :
    ∃ vs, Row closeList true vs t ∧ ∀ v ∈ vs, IsValue v := by
  cases h with
  | list h hv => exact ⟨_, h, hv⟩
  | number h =>
      rw [h.head_cons] at hb
      cases hb
  | nullWord | trueWord | falseWord | text | record => exact absurd hb (by decide)

theorem IsValue.record_of_head (h : IsValue (b :: t)) (hb : head b = .record) :
    ∃ ms : List Member, Row closeRecord true (ms.map Member.text) t ∧ (∀ m ∈ ms, m.Spelled) ∧
      ∀ m ∈ ms, IsValue m.value := by
  cases h with
  | record h hm hv => exact ⟨_, h, hm, hv⟩
  | number h =>
      rw [h.head_cons] at hb
      cases hb
  | nullWord | trueWord | falseWord | text | list => exact absurd hb (by decide)

theorem simple_append (h : IsValue (b :: t)) : ∃ e : Except Fault Value, ∀ x, Stops x →
    result (simple (head b) b (t ++ x)) = e.map (·, x) := by
  cases h with
  | nullWord => exact ⟨.ok .null, fun x _ => result_word _ _ _ x⟩
  | trueWord => exact ⟨.ok (.bool true), fun x _ => result_word _ _ _ x⟩
  | falseWord => exact ⟨.ok (.bool false), fun x _ => result_word _ _ _ x⟩
  | number h =>
      obtain ⟨e, he⟩ := number_append h
      refine ⟨e.map .number, fun x hx => ?_⟩
      rw [h.head_cons, simple, result_map, ← List.cons_append, he x hx]
      cases e <;> rfl
  | text h =>
      obtain ⟨e, he⟩ := text_append h
      refine ⟨e.map .text, fun x _ => ?_⟩
      have hhead : head quote = .text := by decide
      rw [hhead, simple, result_past, result_map, List.append_assoc, List.singleton_append, he]
      cases e <;> rfl
  | list => exact ⟨.error .mismatched, fun _ _ => rfl⟩
  | record => exact ⟨.error .mismatched, fun _ _ => rfl⟩

theorem mismatch_append (h : IsValue (b :: t)) : ∃ f, ∀ x, Stops x → mismatch b (t ++ x) = f := by
  obtain ⟨e, he⟩ := simple_append h
  refine ⟨match e with | .ok _ => .mismatched | .error f => f, fun x hx => ?_⟩
  have hx := he x hx
  rw [mismatch]
  cases e with
  | ok v =>
      obtain ⟨_, hv⟩ := result_eq_ok hx
      rw [hv]
  | error f => rw [result_eq_error hx]

theorem mismatched (h : IsValue (b :: t)) : ∃ e : Except Fault α, ∀ x, Stops x →
    result (.error (mismatch b (t ++ x)) : Except Fault (Read α (b :: (t ++ x)))) = e.map (·, x) := by
  obtain ⟨f, hf⟩ := mismatch_append h
  refine ⟨.error f, fun x hx => ?_⟩
  rw [hf x hx]
  rfl

theorem text_past (h : IsValue (b :: t)) (hb : head b = .text) : ∃ e : Except Fault String, ∀ x,
    result (past b text (t ++ x)) = e.map (·, x) := by
  obtain ⟨v, rfl, hv⟩ := h.text_of_head hb
  obtain ⟨e, he⟩ := text_append hv
  refine ⟨e, fun x => ?_⟩
  rw [result_past, List.append_assoc, List.singleton_append, he]

theorem textValue_apt : textValue.Apt := by
  refine apt_spaced fun b t h => ?_
  by_cases hb : head b = .text
  · obtain ⟨e, he⟩ := text_past h hb
    exact ⟨e, fun x _ => by rw [if_pos hb, he]⟩
  · obtain ⟨e, he⟩ := mismatched (α := String) h
    exact ⟨e, fun x hx => by rw [if_neg hb, he x hx]⟩

theorem optionalText_apt : optionalText.Apt := by
  refine apt_spaced fun b t h => ?_
  cases hb : head b with
  | null =>
      have hnull := h.null_of_head hb
      cases hnull
      exact ⟨.ok none, fun x _ => result_word _ _ _ x⟩
  | text =>
      obtain ⟨e, he⟩ := text_past h hb
      refine ⟨e.map some, fun x _ => ?_⟩
      rw [result_past, result_map, ← result_past b text, he]
      cases e <;> rfl
  | true | false | number | list | record | none => exact mismatched h

theorem listOf_apt {item : Reader α} (hi : item.Apt) : (listOf item).Apt := by
  refine apt_spaced fun b t h => ?_
  by_cases hb : head b = .list
  · obtain ⟨vs, hr, hv⟩ := h.list_of_head hb
    refine ⟨vs.mapM item.reads, fun x _ => ?_⟩
    rw [if_pos hb, result_past, itemsFrom_row hi hr hv]
  · obtain ⟨e, he⟩ := mismatched (α := List α) h
    exact ⟨e, fun x hx => by rw [if_neg hb, he x hx]⟩

theorem reads_listOf {item : Reader α} (hi : item.Apt) {vs : List Bytes} {v : Bytes} (h : IsList vs v) :
    (listOf item).reads v = vs.mapM item.reads := by
  obtain ⟨⟨s, rfl, hr⟩, hv⟩ := h
  have hread : result (listOf item (openList :: s)) = (vs.mapM item.reads).map (·, []) := by
    refine (result_spaced (skipSpace_cons (by decide) s)).trans ?_
    have hhead : head openList = .list := by decide
    have hrow := itemsFrom_row hi hr hv []
    rw [List.append_nil] at hrow
    rw [if_pos hhead, result_past, hrow]
  rw [Reader.reads, hread]
  cases vs.mapM item.reads <;> rfl

def Member.name (m : Member) : Except Fault String := Reader.reads Json.key (quote :: (m.key ++ [quote]))

theorem key_member {m : Member} (h : IsText m.key) (x : Bytes) :
    result (key (m.text ++ x)) = m.name.map (·, m.before ++ colon :: (m.after ++ (m.value ++ x))) := by
  obtain ⟨e, he⟩ := text_append h
  have hkey (y : Bytes) : result (key (quote :: (m.key ++ quote :: y))) = e.map (·, y) := by
    rw [key, if_pos rfl, result_past, he]
  have hname : m.name = e := by
    rw [Member.name, Reader.reads, hkey []]
    cases e <;> rfl
  have htext : m.text ++ x = quote :: (m.key ++ quote :: (m.before ++ colon :: (m.after ++ (m.value ++ x)))) := by
    simp [Member.text]
  rw [htext, hkey, hname]

theorem result_afterColon {r : Reader α} {g : Bytes} (hg : Gap g) (s : Bytes) :
    result (afterColon r (g ++ colon :: s)) = result (r s) := by
  refine (result_spaced (skipSpace_gap_cons hg (by decide))).trans ?_
  rw [if_pos rfl, result_past]

/-- One member is read: `enter` says by its key what reads its value. -/
def take (enter : α → String → Except Fault (Reader α)) (acc : α) (m : Member) : Except Fault α := do
  let k ← m.name
  let r ← enter acc k
  r.reads m.value

variable {enter : α → String → Except Fault (Reader α)} {first : Bool} {ms : List Member} {s : Bytes}

theorem result_membersFrom {acc : α} {le : t.length ≤ s.length}
    (h : turn closeRecord first s = .ok (.item t le)) :
    result (membersFrom key enter first acc s) = (do
      let (k, r) ← result (key t)
      let reader ← enter acc k
      let (a, r') ← result (afterColon reader r)
      result (membersFrom key enter false a r')) := by
  rw [membersFrom, h]
  simp only [bind, Except.bind]
  cases key t with
  | error f => rfl
  | ok k =>
      simp only [result_ok]
      cases enter acc k.value with
      | error f => rfl
      | ok reader =>
          simp only
          cases afterColon reader k.rest with
          | error f => rfl
          | ok a =>
              simp only [result_ok]
              cases membersFrom key enter false a.value a.rest <;> rfl

theorem membersFrom_row (henter : ∀ acc k r, enter acc k = .ok r → r.Apt)
    (h : Row closeRecord first (ms.map Member.text) s) (hm : ∀ m ∈ ms, m.Spelled)
    (hv : ∀ m ∈ ms, IsValue m.value) (acc : α) (x : Bytes) :
    result (membersFrom key enter first acc (s ++ x)) = (ms.foldlM (take enter) acc).map (·, x) := by
  have hb : ∀ p ∈ ms.map Member.text, Begins p := List.forall_mem_map.2 fun m _ => m.begins
  induction ms generalizing first s acc with
  | nil =>
      rcases turn_row (.inr rfl) h hb with ⟨-, ht⟩ | ⟨_, _, _, h, -⟩
      · obtain ⟨_, ht⟩ := ht x
        rw [membersFrom, ht]
        rfl
      · cases h
  | cons m ms ih =>
      rcases turn_row (.inr rfl) h hb with ⟨h, -⟩ | ⟨_, _, r, he, hr, ht⟩
      · cases h
      · cases he
        obtain ⟨_, ht⟩ := ht x
        obtain ⟨hspelled, hm⟩ := List.forall_mem_cons.1 hm
        obtain ⟨hvalue, hv⟩ := List.forall_mem_cons.1 hv
        rw [result_membersFrom ht, key_member hspelled.key, List.foldlM_cons, take]
        cases m.name with
        | error f => rfl
        | ok k =>
            simp only [bind, Except.bind, Except.map]
            cases hent : enter acc k with
            | error f => rfl
            | ok reader =>
                have hread : result (afterColon reader (m.before ++ colon :: (m.after ++ (m.value ++ (r ++ x))))) =
                    (reader.reads m.value).map (·, r ++ x) :=
                  (result_afterColon hspelled.before _).trans
                    (henter acc k reader hent _ hvalue _ _ hspelled.after (hr.stops (.inr rfl) x))
                simp only [hread]
                cases reader.reads m.value with
                | error f => rfl
                | ok a => exact ih hr hm hv a fun p hp => hb p (List.mem_cons_of_mem _ hp)

variable {fs : Fields α}

def Fields.Apt (fs : Fields α) : Prop := ∀ f ∈ fs, ∀ a, (f.2 a).Apt

theorem Fields.lookup_mem {k : String} {r : α → Reader α} (h : fs.lookup k = some r) : (k, r) ∈ fs := by
  obtain ⟨l, l', rfl, -⟩ := List.lookup_eq_some_iff.1 h
  simp

theorem Fields.apt_enter (h : fs.Apt) (acc : List String × α) (k : String) (r : Reader (List String × α))
    (hr : fs.enter acc k = .ok r) : r.Apt := by
  rw [Fields.enter] at hr
  split at hr
  · cases hr
    exact pass_apt.map _
  next r' hl =>
    split at hr
    · cases hr
    · cases hr
      exact (h _ (Fields.lookup_mem hl) acc.2).map _

theorem result_inOrder {k : String} {r : α → Reader α} {a : α} {le : t.length ≤ s.length}
    (h : turn closeList first s = .ok (.item t le)) :
    result (Fields.inOrder first a ((k, r) :: fs) s) = (do
      let (b, s') ← result (r a t)
      result (Fields.inOrder false b fs s')) := by
  simp only [Fields.inOrder, h, bind, Except.bind]
  cases r a t with
  | error f => rfl
  | ok b =>
      simp only [result_ok]
      cases Fields.inOrder false b.value fs b.rest <;> rfl

theorem inOrder_row {ps : List Bytes} (hfs : fs.Apt) (h : Row closeList first ps s)
    (hp : ∀ p ∈ ps, IsValue p) (a : α) : ∃ e : Except Fault α, ∀ x,
    result (Fields.inOrder first a fs (s ++ x)) = e.map (·, x) := by
  induction fs generalizing first ps s a with
  | nil =>
      cases h with
      | close hg =>
          refine ⟨.ok a, fun x => ?_⟩
          rw [List.append_assoc]
          exact result_spaced (skipSpace_gap_cons hg (by decide))
      | first hg =>
          obtain ⟨b, t, rfl, hb, hl, -⟩ := (hp _ List.mem_cons_self).begins
          refine ⟨.error .malformed, fun x => ?_⟩
          rw [List.append_assoc, List.append_assoc, List.cons_append]
          refine (result_spaced (skipSpace_gap_cons hg hb)).trans ?_
          rw [if_neg hl]
          rfl
      | next hg =>
          refine ⟨.error .malformed, fun x => ?_⟩
          rw [List.append_assoc]
          exact result_spaced (skipSpace_gap_cons hg (by decide))
  | cons f fs ih =>
      obtain ⟨k, r⟩ := f
      have hb : ∀ p ∈ ps, Begins p := fun p hm => (hp p hm).begins
      have hrest : Fields.Apt fs := fun f hf => hfs f (List.mem_cons_of_mem _ hf)
      rcases turn_row (.inl rfl) h hb with ⟨-, hturn⟩ | ⟨p, ps, s', rfl, hr, hturn⟩
      · refine ⟨.ok a, fun x => ?_⟩
        obtain ⟨_, ht⟩ := hturn x
        simp only [Fields.inOrder, ht]
        rfl
      · obtain ⟨hpv, hps⟩ := List.forall_mem_cons.1 hp
        have hread (x : Bytes) : result (r a (p ++ (s' ++ x))) = ((r a).reads p).map (·, s' ++ x) :=
          hfs (k, r) List.mem_cons_self a p hpv [] _ gap_nil (hr.stops (.inl rfl) x)
        cases hval : (r a).reads p with
        | error f =>
            refine ⟨.error f, fun x => ?_⟩
            obtain ⟨_, ht⟩ := hturn x
            rw [result_inOrder ht, hread, hval]
            rfl
        | ok b =>
            obtain ⟨e, he⟩ := ih hrest hr hps b
            refine ⟨e, fun x => ?_⟩
            obtain ⟨_, ht⟩ := hturn x
            rw [result_inOrder ht, hread, hval]
            exact he x

theorem record_apt (hfs : fs.Apt) (start : α) : (record fs start).Apt := by
  refine apt_spaced fun b t h => ?_
  cases hb : head b with
  | record =>
      obtain ⟨ms, hr, hm, hv⟩ := h.record_of_head hb
      refine ⟨(ms.foldlM (take fs.enter) ([], start)).map Prod.snd, fun x _ => ?_⟩
      rw [result_past, result_map, membersFrom_row (Fields.apt_enter hfs) hr hm hv]
      cases ms.foldlM (take fs.enter) ([], start) <;> rfl
  | list =>
      obtain ⟨vs, hr, hv⟩ := h.list_of_head hb
      obtain ⟨e, he⟩ := inOrder_row hfs hr hv start
      exact ⟨e, fun x _ => by rw [result_past, he]⟩
  | null | true | false | number | text | none => exact mismatched h

/-- What comes of a record is what comes of its members. -/
theorem reads_record (hfs : fs.Apt) (start : α) {v : Bytes} (h : IsRecord ms v) :
    (record fs start).reads v = (ms.foldlM (take fs.enter) ([], start)).map Prod.snd := by
  obtain ⟨⟨s, rfl, hr⟩, hm, hv⟩ := h
  have hread : result (record fs start (openRecord :: s)) =
      ((ms.foldlM (take fs.enter) ([], start)).map Prod.snd).map (·, []) := by
    refine (result_spaced (skipSpace_cons (by decide) s)).trans ?_
    have hhead : head openRecord = .record := by decide
    have hrow := membersFrom_row (Fields.apt_enter hfs) hr hm hv ([], start) []
    rw [List.append_nil] at hrow
    simp only [hhead]
    rw [result_past, result_map, hrow]
    cases ms.foldlM (take fs.enter) ([], start) <;> rfl
  rw [Reader.reads, hread]
  cases ms.foldlM (take fs.enter) ([], start) <;> rfl

theorem valueWith_apt {inner : Option (Reader Value)} (hi : ∀ r, inner = some r → r.Apt) :
    (valueWith inner).Apt := by
  refine apt_spaced fun b t h => ?_
  have hsimple := simple_append h
  cases hb : head b with
  | list =>
      obtain ⟨vs, hr, hv⟩ := h.list_of_head hb
      cases inner with
      | none => exact ⟨.error .malformed, fun _ _ => rfl⟩
      | some r =>
          refine ⟨(vs.mapM r.reads).map fun _ => .compound, fun x _ => ?_⟩
          rw [result_past, result_map, itemsFrom_row (hi r rfl) hr hv]
          cases vs.mapM r.reads <;> rfl
  | record =>
      obtain ⟨ms, hr, hm, hv⟩ := h.record_of_head hb
      cases inner with
      | none => exact ⟨.error .malformed, fun _ _ => rfl⟩
      | some r =>
          refine ⟨ms.foldlM (take fun a _ => .ok (r.map fun _ => a)) .compound, fun x _ => ?_⟩
          rw [result_past, membersFrom_row _ hr hm hv]
          intro acc k r' hr'
          cases hr'
          exact (hi r rfl).map _
  | null | true | false | number | text | none =>
      rw [hb] at hsimple
      exact hsimple

theorem value_apt (depth : Nat) : (value depth).Apt := by
  induction depth with
  | zero => exact valueWith_apt fun r h => by cases h
  | succ depth ih =>
      refine valueWith_apt fun r h => ?_
      cases h
      exact ih

theorem whole_value {r : Reader α} (hr : r.Apt) {v g g' : Bytes} (hv : IsValue v) (hg : Gap g) (hg' : Gap g') :
    whole r (g ++ (v ++ g')) = r.reads v := by
  have hstops : Stops g' := by
    have h := stops_gap hg' Stops.nil
    rwa [List.append_nil] at h
  have hend : skipSpace g' = [] := by
    have h := skipSpace_gap hg' []
    rwa [List.append_nil] at h
  have hread := hr v hv g g' hg hstops
  cases hval : r.reads v with
  | error f =>
      rw [hval] at hread
      simp only [whole, result_eq_error hread]
      rfl
  | ok a =>
      rw [hval] at hread
      obtain ⟨_, h⟩ := result_eq_ok hread
      simp only [whole, h, bind, Except.bind, if_pos hend]
      rfl

end EntityGen.Json
