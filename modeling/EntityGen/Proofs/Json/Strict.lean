import EntityGen.Proofs.Json.Spelling
import EntityGen.Proofs.Json.Values

namespace EntityGen.Json

open Text.Utf8 (Bytes)

variable {α β : Type} {s t x : Bytes} {b : UInt8}

theorem head_text (h : head b = .text) : b = quote := by
  unfold head at h
  grind

theorem head_list (h : head b = .list) : b = openList := by
  unfold head at h
  grind [openList]

theorem head_record (h : head b = .record) : b = openRecord := by
  unfold head at h
  grind [openRecord]

theorem text_value {r : Reader α} {a : α}
    (hr : ∀ s a x, result (r s) = .ok (a, x) → ∃ w, IsText w ∧ s = w ++ quote :: x) (hb : head b = .text)
    (h : result (past b r t) = .ok (a, x)) : ∃ v, IsValue v ∧ b :: t = v ++ x := by
  rw [result_past] at h
  obtain ⟨w, hw, rfl⟩ := hr _ _ _ h
  rw [head_text hb]
  exact ⟨_, .text hw, by simp⟩

theorem simple_ok {v : Value} (h : result (simple (head b) b t) = .ok (v, x)) : ∃ w, IsValue w ∧ b :: t = w ++ x := by
  cases hb : head b <;> rw [hb] at h
  case null => exact ⟨_, .nullWord, (word_ok h).2⟩
  case true => exact ⟨_, .trueWord, (word_ok h).2⟩
  case false => exact ⟨_, .falseWord, (word_ok h).2⟩
  case number =>
    obtain ⟨n, hn, -⟩ := map_ok h
    obtain ⟨w, hw, hs⟩ := number_ok hn
    exact ⟨w, .number hw, hs⟩
  case text =>
    refine text_value (fun s a x h => ?_) hb h
    obtain ⟨v, hv, -⟩ := map_ok h
    exact text_ok hv
  case list | record | none => cases h

/-- What the reader takes is a value with space before it. -/
def Reader.Strict (r : Reader α) : Prop :=
  ∀ s a x, result (r s) = .ok (a, x) → ∃ g v, Gap g ∧ IsValue v ∧ s = g ++ (v ++ x)

theorem strict_spaced {f : (b : UInt8) → (t : Bytes) → Except Fault (Read α (b :: t))}
    (hf : ∀ b t a x, result (f b t) = .ok (a, x) → ∃ v, IsValue v ∧ b :: t = v ++ x) : Reader.Strict (spaced f) := by
  intro s a x h
  obtain ⟨g, b, t, hg, rfl, hread⟩ := spaced_ok h
  obtain ⟨v, hv, hs⟩ := hf b t a x hread
  exact ⟨g, v, hg, hv, by rw [hs]⟩

theorem Reader.Strict.map {r : Reader α} (h : r.Strict) (f : α → β) : (r.map f).Strict := by
  intro s a x hr
  obtain ⟨c, hc, -⟩ := map_ok hr
  exact h s c x hc

theorem textValue_strict : textValue.Strict := by
  refine strict_spaced fun b t a x h => ?_
  split at h
  next hb => exact text_value (fun _ _ _ => text_ok) hb h
  · cases h

theorem optionalText_strict : optionalText.Strict := by
  refine strict_spaced fun b t a x h => ?_
  split at h
  next => exact ⟨_, .nullWord, (word_ok h).2⟩
  next hb =>
    refine text_value (fun s a x h => ?_) hb h
    obtain ⟨v, hv, -⟩ := map_ok h
    exact text_ok hv
  · cases h

variable {close : UInt8} {first : Bool}

def Lead (first : Bool) (l : Bytes) : Prop :=
  if first then Gap l else ∃ a a', Gap a ∧ Gap a' ∧ l = a ++ comma :: a'

theorem gap_append {g g' : Bytes} (h : Gap g) (h' : Gap g') : Gap (g ++ g') := by
  intro b hb
  rcases List.mem_append.1 hb with hb | hb
  · exact h b hb
  · exact h' b hb

theorem Lead.gap {l g : Bytes} (h : Lead first l) (hg : Gap g) : Lead first (l ++ g) := by
  cases first with
  | true => exact gap_append h hg
  | false =>
      obtain ⟨a, a', ha, ha', rfl⟩ := h
      exact ⟨a, a' ++ g, ha, gap_append ha' hg, by simp⟩

theorem Lead.row {l p r : Bytes} {ps : List Bytes} (h : Lead first l) (hr : Row close false ps r) :
    Row close first (p :: ps) (l ++ (p ++ r)) := by
  cases first with
  | true => exact .first h hr
  | false =>
      obtain ⟨a, a', ha, ha', rfl⟩ := h
      rw [List.append_assoc]
      exact .next ha ha' hr

theorem turn_ok {u : Turn s} (h : turn close first s = .ok u) : match u with
    | .close x _ => ∃ a, Gap a ∧ s = a ++ close :: x
    | .item x _ => ∃ l, Lead first l ∧ s = l ++ x := by
  obtain ⟨g, hg, hs⟩ := skipSpace_spec s
  unfold turn at h
  split at h
  · cases h
  next b t hskip =>
    rw [hskip] at hs
    split at h
    next hb =>
      cases h
      exact ⟨g, hg, by rw [hs, hb]⟩
    split at h
    next hfirst =>
      cases h
      subst hfirst
      exact ⟨g, hg, hs⟩
    next hfirst =>
      split at h
      next hcomma =>
        obtain ⟨g', hg', ht⟩ := skipSpace_spec t
        split at h
        · cases h
        next c u hskip' =>
          rw [hskip'] at ht
          split at h
          · cases h
          · cases h
            rw [Bool.not_eq_true] at hfirst
            subst hfirst
            exact ⟨g ++ comma :: g', ⟨g, g', hg, hg', rfl⟩, by rw [hs, hcomma, ht]; simp⟩
      · cases h

theorem itemsFrom_ok {item : Reader α} (hi : item.Strict) {as : List α}
    (h : result (itemsFrom item first s) = .ok (as, x)) :
    ∃ ps r, Row closeList first ps r ∧ (∀ p ∈ ps, IsValue p) ∧ s = r ++ x := by
  induction hl : s.length using Nat.strongRecOn generalizing first s as with
  | ind n ih =>
      subst hl
      cases ht : turn closeList first s with
      | error f => rw [itemsFrom, ht] at h; cases h
      | ok u =>
          have hturn := turn_ok ht
          cases u with
          | close y lt =>
              obtain ⟨a, ha, rfl⟩ := hturn
              rw [itemsFrom, ht] at h
              cases h
              exact ⟨[], _, .close ha, by simp, by simp⟩
          | item y le =>
              obtain ⟨l, hlead, hs⟩ := hturn
              rw [result_itemsFrom ht] at h
              obtain ⟨⟨a, z⟩, ha, h⟩ := ok_of_bind h
              obtain ⟨⟨as, w⟩, has, h⟩ := ok_of_bind h
              cases h
              obtain ⟨lt, -⟩ := result_eq_ok ha
              obtain ⟨ps, r, hr, hps, rfl⟩ := ih z.length (by omega) has rfl
              obtain ⟨g, v, hg, hv, rfl⟩ := hi _ _ _ ha
              refine ⟨v :: ps, _, (hlead.gap hg).row hr, List.forall_mem_cons.2 ⟨hv, hps⟩, ?_⟩
              rw [hs]
              simp

theorem listOf_strict {item : Reader α} (hi : item.Strict) : (listOf item).Strict := by
  refine strict_spaced fun b t a x h => ?_
  split at h
  next hb =>
    rw [result_past] at h
    obtain ⟨ps, r, hr, hps, rfl⟩ := itemsFrom_ok hi h
    rw [head_list hb]
    exact ⟨_, .list hr hps, rfl⟩
  · cases h

theorem afterColon_ok {r : Reader α} {a : α} (h : result (afterColon r s) = .ok (a, x)) :
    ∃ g t, Gap g ∧ s = g ++ colon :: t ∧ result (r t) = .ok (a, x) := by
  obtain ⟨g, b, t, hg, rfl, hread⟩ := spaced_ok h
  split at hread
  next hb =>
    subst hb
    rw [result_past] at hread
    exact ⟨g, t, hg, rfl, hread⟩
  · cases hread

variable {enter : α → String → Except Fault (Reader α)}

theorem membersFrom_ok (henter : ∀ acc k r, enter acc k = .ok r → r.Strict) {acc a : α}
    (h : result (membersFrom key enter first acc s) = .ok (a, x)) :
    ∃ (ms : List Member) (r : Bytes), Row closeRecord first (ms.map Member.text) r ∧
      (∀ m ∈ ms, m.Spelled) ∧ (∀ m ∈ ms, IsValue m.value) ∧ s = r ++ x := by
  induction hl : s.length using Nat.strongRecOn generalizing first s acc a with
  | ind n ih =>
      subst hl
      cases ht : turn closeRecord first s with
      | error f => rw [membersFrom, ht] at h; cases h
      | ok u =>
          have hturn := turn_ok ht
          cases u with
          | close y lt =>
              obtain ⟨g, hg, rfl⟩ := hturn
              rw [membersFrom, ht] at h
              cases h
              exact ⟨[], _, .close hg, by simp, by simp, by simp⟩
          | item y le =>
              obtain ⟨l, hlead, hs⟩ := hturn
              rw [result_membersFrom ht] at h
              obtain ⟨⟨k, z⟩, hk, h⟩ := ok_of_bind h
              obtain ⟨reader, hent, h⟩ := ok_of_bind h
              obtain ⟨⟨b, w⟩, hcolon, h⟩ := ok_of_bind h
              obtain ⟨ltk, -⟩ := result_eq_ok hk
              obtain ⟨ltb, -⟩ := result_eq_ok hcolon
              obtain ⟨ms, r, hr, hm, hv, rfl⟩ := ih w.length (by omega) h rfl
              obtain ⟨key, hkey, rfl⟩ := key_ok hk
              obtain ⟨g, t, hg, rfl, hb⟩ := afterColon_ok hcolon
              obtain ⟨g', v, hg', hvalue, rfl⟩ := henter _ _ _ hent _ _ _ hb
              refine ⟨⟨key, g, g', v⟩ :: ms, _, hlead.row hr, ?_, ?_, ?_⟩
              · exact List.forall_mem_cons.2 ⟨⟨hkey, hg, hg'⟩, hm⟩
              · exact List.forall_mem_cons.2 ⟨hvalue, hv⟩
              · rw [hs]
                simp [Member.text]

def Frame.opener : Frame → UInt8
  | .list => openList
  | .record => openRecord

/-- What stands between the brackets, and commas. -/
def Frame.Piece : Frame → Bytes → Prop
  | .list, p => IsValue p
  | .record, p => ∃ m : Member, (m.Spelled ∧ IsValue m.value) ∧ m.text = p

theorem row_value {f : Frame} {ps : List Bytes} {r : Bytes} (hr : Row f.close true ps r) (hp : ∀ p ∈ ps, f.Piece p) :
    IsValue (f.opener :: r) := by
  cases f with
  | list => exact .list hr hp
  | record =>
      obtain ⟨ms, hms, rfl⟩ :
          ∃ ms : List Member, (∀ m ∈ ms, m.Spelled ∧ IsValue m.value) ∧ ms.map Member.text = ps := by
        clear hr
        induction ps with
        | nil => exact ⟨[], by simp, rfl⟩
        | cons p ps ih =>
            obtain ⟨⟨m, hm, rfl⟩, hps⟩ := List.forall_mem_cons.1 hp
            obtain ⟨ms, hms, rfl⟩ := ih hps
            exact ⟨m :: ms, List.forall_mem_cons.2 ⟨hm, hms⟩, rfl⟩
      exact .record hr (fun m hm => (hms m hm).1) fun m hm => (hms m hm).2

variable {a : Await} {f : Frame} {fs : List Frame} {m : Move} {y : Bytes}

/-- Pieces and closing brackets, up to the end of the brackets around. -/
def Closes : List Frame → Bytes → Bytes → Prop
  | [], s, x => s = x
  | f :: fs, s, x => ∃ ps r t, Row f.close false ps r ∧ (∀ p ∈ ps, f.Piece p) ∧ s = r ++ t ∧ Closes fs t x

def StartsValue (fs : List Frame) (s x : Bytes) : Prop :=
  ∃ g v t, Gap g ∧ IsValue v ∧ s = g ++ (v ++ t) ∧ Closes fs t x

def Await.Finds : Await → List Frame → Bytes → Bytes → Prop
  | .value, fs, s, x => StartsValue fs s x
  | .first f, fs, s, x => ∃ ps r t, Row f.close true ps r ∧ (∀ p ∈ ps, f.Piece p) ∧ s = r ++ t ∧ Closes fs.tail t x
  | .item f, fs, s, x => ∃ g p t, Gap g ∧ f.Piece p ∧ s = g ++ (p ++ t) ∧ Closes fs t x
  | .colon, fs, s, x => ∃ g t, Gap g ∧ s = g ++ Json.colon :: t ∧ StartsValue fs t x
  | .comma _, fs, s, x => Closes fs s x

/-- The innermost brackets are those that are awaited in. -/
def Await.Fits : Await → List Frame → Prop
  | .value, _ => True
  | .first f, fs | .item f, fs | .comma f, fs => fs.head? = some f
  | .colon, fs => fs.head? = some .record

theorem passValue_ok (h : result (passValue b t) = .ok (m, x)) :
    (m = .done ∧ ∃ v, IsValue v ∧ b :: t = v ++ x) ∨ ∃ f : Frame, m = .opens f ∧ b = f.opener ∧ t = x := by
  unfold passValue at h
  cases hb : head b <;> simp only [hb] at h
  case null => exact .inl ⟨(word_ok h).1, _, .nullWord, (word_ok h).2⟩
  case true => exact .inl ⟨(word_ok h).1, _, .trueWord, (word_ok h).2⟩
  case false => exact .inl ⟨(word_ok h).1, _, .falseWord, (word_ok h).2⟩
  case number =>
    obtain ⟨n, hn, rfl⟩ := map_ok h
    rw [result_numeral] at hn
    obtain ⟨w, hw, hs⟩ := numeralStep_ok hn
    exact .inl ⟨rfl, w, .number hw, hs⟩
  case text =>
    rw [result_past] at h
    obtain ⟨u, hu, rfl⟩ := map_ok h
    obtain ⟨w, hw, rfl⟩ := passText_ok hu
    rw [head_text hb]
    exact .inl ⟨rfl, _, .text hw, by simp⟩
  case list =>
    cases h
    exact .inr ⟨.list, rfl, head_list hb, rfl⟩
  case record =>
    cases h
    exact .inr ⟨.record, rfl, head_record hb, rfl⟩
  case none => cases h

section Step

variable (ih : ∀ y a fs, y.length < s.length → Await.Fits a fs → passed a fs y = .ok x → Await.Finds a fs y x)
include ih

theorem resumed_closes (hy : y.length < s.length) (h : resumed fs y = .ok x) : Closes fs y x := by
  cases fs with
  | nil => exact Except.ok.inj h
  | cons f fs => exact ih y (.comma f) (f :: fs) hy rfl h

theorem value_closes (htoken : result (passToken a s) = .ok (m, y)) (hm : result (passValue b t) = .ok (m, y))
    (h : passed a fs s = .ok x) : ∃ v u, IsValue v ∧ b :: t = v ++ u ∧ Closes fs u x := by
  obtain ⟨hy, -⟩ := result_eq_ok htoken
  rcases passValue_ok hm with ⟨rfl, v, hv, hs⟩ | ⟨f, rfl, rfl, rfl⟩
  · rw [passed_done htoken] at h
    exact ⟨v, y, hv, hs, resumed_closes ih hy h⟩
  · rw [passed_opens htoken] at h
    obtain ⟨ps, r, u, hr, hps, rfl, hu⟩ := ih _ (.first f) (f :: fs) hy rfl h
    exact ⟨_, u, row_value hr hps, rfl, hu⟩

theorem item_closes (htoken : result (passToken a s) = .ok (m, y)) (hm : result (passItem f b t) = .ok (m, y))
    (h : passed a (f :: fs) s = .ok x) : ∃ p u, f.Piece p ∧ b :: t = p ++ u ∧ Closes (f :: fs) u x := by
  cases f with
  | list => exact value_closes ih htoken hm h
  | record =>
      rw [passItem] at hm
      split at hm
      next hq =>
        subst hq
        rw [result_past] at hm
        obtain ⟨_, hpass, rfl⟩ := map_ok hm
        obtain ⟨w, hw, rfl⟩ := passText_ok hpass
        obtain ⟨hy, -⟩ := result_eq_ok htoken
        rw [passed_on htoken] at h
        obtain ⟨g, z, hg, rfl, g', v, u, hg', hv, rfl, hu⟩ := ih _ .colon (.record :: fs) hy rfl h
        exact ⟨_, u, ⟨⟨w, g, g', v⟩, ⟨⟨hw, hg, hg'⟩, hv⟩, rfl⟩, by simp [Member.text], hu⟩
      · cases hm

end Step

theorem passed_ok (hfit : a.Fits fs) (h : passed a fs s = .ok x) : a.Finds fs s x := by
  induction hl : s.length using Nat.strongRecOn generalizing a fs s with
  | ind n ih =>
      subst hl
      have ih' (y a fs) (hy : y.length < s.length) (hfit : Await.Fits a fs) (h : passed a fs y = .ok x) :=
        ih y.length hy hfit h rfl
      cases htoken : result (passToken a s) with
      | error e =>
          rw [passed, passFrom, result_eq_error htoken] at h
          cases h
      | ok r =>
          obtain ⟨m, y⟩ := r
          obtain ⟨hy, -⟩ := result_eq_ok htoken
          obtain ⟨g, b, t, hg, hs, hm⟩ := spaced_ok htoken
          cases a with
          | value =>
              obtain ⟨v, u, hv, hbt, hu⟩ := value_closes ih' htoken hm h
              exact ⟨g, v, u, hg, hv, by rw [hs, hbt], hu⟩
          | first f =>
              cases fs with
              | nil => cases hfit
              | cons f' fs =>
                  cases hfit
                  dsimp only at hm
                  split at hm
                  next hb =>
                    cases hm
                    rw [passed_closes htoken] at h
                    exact ⟨[], _, t, .close hg, by simp, by rw [hs, hb]; simp, resumed_closes ih' hy h⟩
                  · obtain ⟨p, u, hp, hbt, ps, r, v, hr, hps, rfl, hv⟩ := item_closes ih' htoken hm h
                    refine ⟨p :: ps, _, v, .first hg hr, List.forall_mem_cons.2 ⟨hp, hps⟩, ?_, hv⟩
                    rw [hs, hbt]
                    simp
          | item f =>
              cases fs with
              | nil => cases hfit
              | cons f' fs =>
                  cases hfit
                  obtain ⟨p, u, hp, hbt, hu⟩ := item_closes ih' htoken hm h
                  exact ⟨g, p, u, hg, hp, by rw [hs, hbt], hu⟩
          | colon =>
              dsimp only at hm
              split at hm
              next hb =>
                cases hm
                rw [passed_on htoken] at h
                exact ⟨g, t, hg, by rw [hs, hb], ih' _ .value fs hy trivial h⟩
              · cases hm
          | comma f =>
              cases fs with
              | nil => cases hfit
              | cons f' fs =>
                  cases hfit
                  dsimp only at hm
                  split at hm
                  next hb =>
                    cases hm
                    rw [passed_on htoken] at h
                    obtain ⟨g', p, u, hg', hp, rfl, ps, r, v, hr, hps, rfl, hv⟩ := ih' _ (.item f) (f :: fs) hy rfl h
                    refine ⟨p :: ps, _, v, .next hg hg' hr, List.forall_mem_cons.2 ⟨hp, hps⟩, ?_, hv⟩
                    rw [hs, hb]
                    simp
                  · split at hm
                    next hb =>
                      cases hm
                      rw [passed_closes htoken] at h
                      exact ⟨[], _, t, .close hg, by simp, by rw [hs, hb]; simp, resumed_closes ih' hy h⟩
                    · cases hm

theorem pass_strict : pass.Strict := by
  intro s a x h
  obtain ⟨_, h⟩ := result_eq_ok h
  have hpassed : passed .value [] s = .ok x := by
    rw [passed_pass, h]
    rfl
  obtain ⟨g, v, t, hg, hv, rfl, rfl⟩ := passed_ok (a := .value) trivial hpassed
  exact ⟨g, v, hg, hv, rfl⟩

variable {fs : Fields α}

def Fields.Strict (fs : Fields α) : Prop := ∀ f ∈ fs, ∀ a, (f.2 a).Strict

theorem Fields.strict_enter (h : fs.Strict) (acc : List String × α) (k : String) (r : Reader (List String × α))
    (hr : fs.enter acc k = .ok r) : r.Strict := by
  rw [Fields.enter] at hr
  split at hr
  · cases hr
    exact pass_strict.map _
  next r' hl =>
    split at hr
    · cases hr
    · cases hr
      exact (h _ (Fields.lookup_mem hl) acc.2).map _

theorem inOrder_ok (hfs : fs.Strict) {a c : α} (h : result (Fields.inOrder first a fs s) = .ok (c, x)) :
    ∃ ps r, Row closeList first ps r ∧ (∀ p ∈ ps, IsValue p) ∧ s = r ++ x := by
  induction fs generalizing first s a with
  | nil =>
      obtain ⟨g, b, t, hg, rfl, hread⟩ := spaced_ok h
      split at hread
      next hb =>
        cases hread
        exact ⟨[], _, .close hg, by simp, by rw [hb]; simp⟩
      · cases hread
  | cons f fs ih =>
      obtain ⟨k, r⟩ := f
      have hrest : Fields.Strict fs := fun f hf => hfs f (List.mem_cons_of_mem _ hf)
      cases ht : turn closeList first s with
      | error e => simp only [Fields.inOrder, ht] at h; cases h
      | ok u =>
          have hturn := turn_ok ht
          cases u with
          | close y lt =>
              obtain ⟨g, hg, rfl⟩ := hturn
              simp only [Fields.inOrder, ht] at h
              cases h
              exact ⟨[], _, .close hg, by simp, by simp⟩
          | item y le =>
              obtain ⟨l, hlead, hs⟩ := hturn
              rw [result_inOrder ht] at h
              obtain ⟨⟨b, z⟩, hb, h⟩ := ok_of_bind h
              obtain ⟨ps, q, hr, hps, rfl⟩ := ih hrest h
              obtain ⟨g, v, hg, hv, rfl⟩ := hfs (k, r) List.mem_cons_self a _ _ _ hb
              refine ⟨v :: ps, _, (hlead.gap hg).row hr, List.forall_mem_cons.2 ⟨hv, hps⟩, ?_⟩
              rw [hs]
              simp

theorem record_ok (hfs : fs.Strict) {start a : α} (h : result (record fs start s) = .ok (a, x)) :
    ∃ g v, Gap g ∧ s = g ++ (v ++ x) ∧ ((∃ ms, IsRecord ms v) ∨ ∃ vs, IsList vs v) := by
  obtain ⟨g, b, t, hg, rfl, hread⟩ := spaced_ok h
  split at hread
  next hb =>
    rw [result_past] at hread
    obtain ⟨_, hms, -⟩ := map_ok hread
    obtain ⟨ms, r, hr, hm, hv, rfl⟩ := membersFrom_ok (Fields.strict_enter hfs) hms
    exact ⟨g, b :: r, hg, rfl, .inl ⟨ms, ⟨r, by rw [head_record hb], hr⟩, hm, hv⟩⟩
  next hb =>
    rw [result_past] at hread
    obtain ⟨ps, r, hr, hps, rfl⟩ := inOrder_ok hfs hread
    exact ⟨g, b :: r, hg, rfl, .inr ⟨ps, ⟨r, by rw [head_list hb], hr⟩, hps⟩⟩
  · cases hread

theorem record_strict (hfs : fs.Strict) (start : α) : (record fs start).Strict := by
  intro s a x h
  obtain ⟨g, v, hg, hs, ⟨ms, hv⟩ | ⟨vs, hv⟩⟩ := record_ok hfs h
  · exact ⟨g, v, hg, hv.isValue, hs⟩
  · exact ⟨g, v, hg, hv.isValue, hs⟩

theorem valueWith_strict {inner : Option (Reader Value)} (hi : ∀ r, inner = some r → r.Strict) :
    (valueWith inner).Strict := by
  refine strict_spaced fun b t a x h => ?_
  split at h
  next r hb =>
    rw [result_past] at h
    obtain ⟨_, hps, -⟩ := map_ok h
    obtain ⟨ps, q, hr, hv, rfl⟩ := itemsFrom_ok (hi r rfl) hps
    rw [head_list hb]
    exact ⟨_, .list hr hv, rfl⟩
  next r hb =>
    rw [result_past] at h
    have henter (acc : Value) (k : String) (r' : Reader Value) 
        (h : (.ok (r.map fun _ => acc) : Except Fault (Reader Value)) = .ok r') : r'.Strict := by
      cases h
      exact (hi r rfl).map _
    obtain ⟨ms, q, hr, hm, hv, rfl⟩ := membersFrom_ok henter h
    rw [head_record hb]
    exact ⟨_, .record hr hm hv, rfl⟩
  · cases h
  · cases h
  · exact simple_ok h

theorem value_strict (depth : Nat) : (value depth).Strict := by
  induction depth with
  | zero => exact valueWith_strict fun r h => by cases h
  | succ depth ih =>
      refine valueWith_strict fun r h => ?_
      cases h
      exact ih

theorem whole_ok {r : Reader α} {a : α} (h : whole r s = .ok a) : ∃ g, Gap g ∧ result (r s) = .ok (a, g) := by
  rw [whole] at h
  obtain ⟨c, hc, h⟩ := ok_of_bind h
  split at h
  next hend =>
    cases h
    obtain ⟨g, hg, hs⟩ := skipSpace_spec c.rest
    rw [hend, List.append_nil] at hs
    exact ⟨c.rest, by rw [hs]; exact hg, congrArg result hc⟩
  · cases h

/-- A value is read in the same way wherever it stands, and nothing is taken but a value. -/
structure Reader.Proper (r : Reader α) : Prop where
  apt : r.Apt
  strict : r.Strict

theorem Reader.Proper.map {r : Reader α} (h : r.Proper) (f : α → β) : (r.map f).Proper :=
  ⟨h.apt.map f, h.strict.map f⟩

theorem textValue_proper : textValue.Proper := ⟨textValue_apt, textValue_strict⟩

theorem optionalText_proper : optionalText.Proper := ⟨optionalText_apt, optionalText_strict⟩

theorem listOf_proper {item : Reader α} (h : item.Proper) : (listOf item).Proper :=
  ⟨listOf_apt h.apt, listOf_strict h.strict⟩

theorem value_proper (depth : Nat) : (value depth).Proper := ⟨value_apt depth, value_strict depth⟩

def Fields.Proper (fs : Fields α) : Prop := ∀ f ∈ fs, ∀ a, (f.2 a).Proper

theorem Fields.Proper.apt (h : fs.Proper) : fs.Apt := fun f hf a => (h f hf a).apt

theorem Fields.Proper.strict (h : fs.Proper) : fs.Strict := fun f hf a => (h f hf a).strict

theorem record_proper (h : fs.Proper) (start : α) : (record fs start).Proper :=
  ⟨record_apt h.apt start, record_strict h.strict start⟩

end EntityGen.Json
