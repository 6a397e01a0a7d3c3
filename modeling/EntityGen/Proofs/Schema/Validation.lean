import EntityGen.Proofs.Text.Blank
import EntityGen.Schema
import Mathlib.Data.List.Forall2

namespace EntityGen

/-- `x`, at the place `i`, is the first of `xs` that is bad. -/
structure IsFirst {α : Type} (Bad : α → Prop) (xs : List α) (i : Nat) (x : α) : Prop where
  here : xs[i]? = some x
  bad : Bad x
  least : ∀ j < i, ∀ y, xs[j]? = some y → ¬ Bad y

namespace IsFirst

variable {α : Type} {Bad : α → Prop} {xs : List α} {x y : α} {i : Nat}

theorem head (h : Bad y) : IsFirst Bad (y :: xs) 0 y := ⟨rfl, h, fun _ hj => absurd hj (Nat.not_lt_zero _)⟩

theorem tail (hy : ¬ Bad y) (h : IsFirst Bad xs i x) : IsFirst Bad (y :: xs) (i + 1) x where
  here := h.here
  bad := h.bad
  least j hj z hz := by
    cases j with
    | zero => exact Option.some.inj hz ▸ hy
    | succ j => exact h.least j (Nat.lt_of_succ_lt_succ hj) z hz

theorem not_all (h : IsFirst Bad xs i x) : ¬ ∀ y ∈ xs, ¬ Bad y :=
  fun hall => hall x (List.mem_of_getElem? h.here) h.bad

theorem unique {j : Nat} (h : IsFirst Bad xs i x) (h' : IsFirst Bad xs j y) : i = j ∧ x = y := by
  rcases Nat.lt_trichotomy i j with hlt | rfl | hlt
  · exact absurd h.bad (h'.least i hlt x h.here)
  · exact ⟨rfl, Option.some.inj (h.here.symm.trans h'.here)⟩
  · exact absurd h'.bad (h.least j hlt y h'.here)

end IsFirst

namespace Schema

open List (Forall₂)
open Text (trim allBlank)

/-- A text that is there and is not blank, and what is kept of it. -/
def Given (t : Option String) (kept : String) : Prop :=
  ∃ s, t = some s ∧ allBlank s = false ∧ kept = trim s

def Missing (t : Option String) : Prop := ∀ s, t = some s → allBlank s = true

variable {t : Option String} {s : String}

theorem solid?_eq_some : solid? t = some s ↔ Given t s := by
  rw [solid?, Option.filter_eq_some_iff, Option.map_eq_some_iff, decide_eq_true_iff]
  constructor
  · rintro ⟨⟨r, rfl, rfl⟩, hne⟩
    exact ⟨r, rfl, Text.trim_ne_empty.1 hne, rfl⟩
  · rintro ⟨r, rfl, hr, rfl⟩
    exact ⟨⟨r, rfl, rfl⟩, Text.trim_ne_empty.2 hr⟩

theorem solid?_eq_none : solid? t = none ↔ Missing t := by
  cases t with
  | none => exact ⟨fun _ _ h => absurd h (by simp), fun _ => rfl⟩
  | some r =>
      rw [solid?, Option.map_some, Option.filter_eq_none_iff]
      simp only [Option.some.injEq, forall_eq', Missing, decide_eq_true_iff, ne_eq, not_not,
        Text.trim_eq_empty]

theorem Given.solid (h : Given t s) : Text.Solid s := by
  obtain ⟨r, -, hr, rfl⟩ := h
  exact Text.solid_trim hr

theorem Given.not_missing (h : Given t s) : ¬ Missing t := by
  rintro hm
  obtain ⟨r, rfl, hr, -⟩ := h
  rw [hm r rfl] at hr
  cases hr

theorem given_or_missing (t : Option String) : (∃ s, Given t s) ∨ Missing t := by
  cases h : solid? t with
  | none => exact .inr (solid?_eq_none.1 h)
  | some s => exact .inl ⟨s, solid?_eq_some.1 h⟩

namespace FieldEntry

/-- A name, a type, and no default of many parts. -/
structure Valid (f : FieldEntry) : Prop where
  name : ¬ Missing f.name
  type : ¬ Missing f.type
  initial : f.initial ≠ .compound

/-- What is wrong with an entry: the first of its name, its type and its default that is bad. -/
inductive Lacks (f : FieldEntry) : FieldFault → Prop
  | name (h : Missing f.name) : Lacks f .noName
  | type (h : ¬ Missing f.name) (h' : Missing f.type) : Lacks f .noType
  | initial (h : ¬ Missing f.name) (h' : ¬ Missing f.type) (h'' : f.initial = .compound) :
      Lacks f .compoundDefault

structure Becomes (f : FieldEntry) (g : Field) : Prop where
  name : Given f.name g.name
  type : Given f.type g.type
  initial : initialOf f.initial = .ok g.initial
  copyable : g.copyable = isCopyable g.type

variable {f : FieldEntry} {g : Field} {e : FieldFault}

theorem initialOf_cases (v : Json.Value) :
    (v = .compound ∧ initialOf v = .error .compoundDefault) ∨ v ≠ .compound ∧ ∃ i, initialOf v = .ok i := by
  cases v with
  | compound => exact .inl ⟨rfl, rfl⟩
  | null | bool | number | text => exact .inr ⟨by simp, _, rfl⟩

theorem validate_cases (f : FieldEntry) :
    (∃ e, f.validate = .error e ∧ f.Lacks e ∧ ¬ f.Valid) ∨ ∃ g, f.validate = .ok g ∧ f.Becomes g ∧ f.Valid := by
  rcases given_or_missing f.name with ⟨n, hn⟩ | hn
  · rcases given_or_missing f.type with ⟨t, ht⟩ | ht
    · rcases initialOf_cases f.initial with ⟨hc, hi⟩ | ⟨hc, i, hi⟩
      · refine .inl ⟨_, ?_, .initial hn.not_missing ht.not_missing hc, fun h => h.initial hc⟩
        simp only [validate, solid?_eq_some.2 hn, solid?_eq_some.2 ht, hi, Except.map]
      · refine .inr ⟨{ name := n, type := t, initial := i }, ?_, ⟨hn, ht, hi, rfl⟩,
          ⟨hn.not_missing, ht.not_missing, hc⟩⟩
        simp only [validate, solid?_eq_some.2 hn, solid?_eq_some.2 ht, hi, Except.map]
    · refine .inl ⟨_, ?_, .type hn.not_missing ht, fun h => h.type ht⟩
      simp only [validate, solid?_eq_some.2 hn, solid?_eq_none.2 ht]
  · refine .inl ⟨_, ?_, .name hn, fun h => h.name hn⟩
    simp only [validate, solid?_eq_none.2 hn]

theorem Lacks.unique {e' : FieldFault} (h : f.Lacks e) (h' : f.Lacks e') : e = e' := by
  cases h with
  | name hn =>
      cases h' with
      | name => rfl
      | type hn' | initial hn' => exact absurd hn hn'
  | type hn ht =>
      cases h' with
      | name hn' => exact absurd hn' hn
      | type => rfl
      | initial _ ht' => exact absurd ht ht'
  | initial hn ht =>
      cases h' with
      | name hn' => exact absurd hn' hn
      | type _ ht' => exact absurd ht' ht
      | initial => rfl

end FieldEntry

section Fields

variable {fs : List FieldEntry} {gs : List Field} {k : Nat} {e : Error}

theorem validateFields_ok (h : validateFields k fs = .ok gs) :
    Forall₂ FieldEntry.Becomes fs gs ∧ ∀ f ∈ fs, f.Valid := by
  induction fs generalizing k gs with
  | nil => cases h; exact ⟨.nil, fun f hf => absurd hf List.not_mem_nil⟩
  | cons f fs ih =>
      rcases f.validate_cases with ⟨e, hf, -, -⟩ | ⟨g, hf, hg, hvalid⟩
      · simp only [validateFields, hf, reduceCtorEq] at h
      · simp only [validateFields, hf] at h
        cases hrest : validateFields (k + 1) fs with
        | error e => rw [hrest] at h; cases h
        | ok rest =>
            rw [hrest] at h
            cases h
            obtain ⟨hall, hvalids⟩ := ih hrest
            exact ⟨.cons hg hall, List.forall_mem_cons.2 ⟨hvalid, hvalids⟩⟩

theorem validateFields_error (h : validateFields k fs = .error e) :
    ∃ i f fault, IsFirst (¬ FieldEntry.Valid ·) fs i f ∧ f.Lacks fault ∧ e = .field (k + i) fault := by
  induction fs generalizing k with
  | nil => cases h
  | cons f fs ih =>
      rcases f.validate_cases with ⟨fault, hf, hlacks, hbad⟩ | ⟨g, hf, -, hvalid⟩
      · simp only [validateFields, hf] at h
        cases h
        exact ⟨0, f, fault, .head hbad, hlacks, rfl⟩
      · simp only [validateFields, hf] at h
        cases hrest : validateFields (k + 1) fs with
        | ok rest => rw [hrest] at h; cases h
        | error e' =>
            rw [hrest] at h
            cases h
            obtain ⟨i, x, fault, hfirst, hlacks, rfl⟩ := ih hrest
            exact ⟨i + 1, x, fault, .tail (not_not.2 hvalid) hfirst, hlacks, by rw [Nat.add_right_comm, Nat.add_assoc]⟩

end Fields

/-- A list and a file, neither of them blank. -/
structure ValidXList (texts : List String) : Prop where
  two : texts.length = 2
  solid : ∀ t ∈ texts, allBlank t = false

def XListBecomes (texts : List String) (d : XListDirective) : Prop :=
  ∃ list target, texts = [list, target] ∧ d.list = trim list ∧ d.target = trim target

theorem validXList_iff {texts : List String} : ValidXList texts ↔
    ∃ list target, texts = [list, target] ∧ allBlank list = false ∧ allBlank target = false := by
  constructor
  · rintro ⟨htwo, hsolid⟩
    obtain ⟨list, target, rfl⟩ := List.length_eq_two.1 htwo
    exact ⟨list, target, rfl, hsolid list (by simp), hsolid target (by simp)⟩
  · rintro ⟨list, target, rfl, hl, ht⟩
    exact ⟨rfl, by simp [hl, ht]⟩

theorem xlistDirective_cases (texts : List String) :
    (¬ ValidXList texts ∧ xlistDirective texts = .error (.directive (.entry texts))) ∨
    ValidXList texts ∧ ∃ d, xlistDirective texts = .ok d ∧ XListBecomes texts d := by
  unfold xlistDirective
  split
  next list target =>
    by_cases hb : allBlank list = true ∨ allBlank target = true
    · refine .inl ⟨fun h => ?_, if_pos hb⟩
      have hl := h.solid list (by simp)
      have ht := h.solid target (by simp)
      simp [hl, ht] at hb
    · rw [if_neg hb]
      rw [not_or, Bool.not_eq_true, Bool.not_eq_true] at hb
      exact .inr ⟨validXList_iff.2 ⟨list, target, rfl, hb⟩, _, rfl, list, target, rfl, rfl, rfl⟩
  next hno =>
    refine .inl ⟨fun h => ?_, rfl⟩
    obtain ⟨list, target, rfl, -⟩ := validXList_iff.1 h
    exact hno list target rfl

section XLists

variable {xs : List (List String)} {ds : List XListDirective} {e : Error}

theorem validateXLists_ok (h : validateXLists xs = .ok ds) :
    Forall₂ XListBecomes xs ds ∧ ∀ x ∈ xs, ValidXList x := by
  induction xs generalizing ds with
  | nil => cases h; exact ⟨.nil, fun x hx => absurd hx List.not_mem_nil⟩
  | cons x xs ih =>
      rw [validateXLists] at h
      rcases xlistDirective_cases x with ⟨-, hx⟩ | ⟨hvalid, d, hx, hd⟩
      · rw [hx] at h; cases h
      · cases hrest : validateXLists xs with
        | error e => rw [hx, hrest] at h; cases h
        | ok rest =>
            rw [hx, hrest] at h
            cases h
            obtain ⟨hall, hvalids⟩ := ih hrest
            exact ⟨.cons hd hall, List.forall_mem_cons.2 ⟨hvalid, hvalids⟩⟩

theorem validateXLists_error (h : validateXLists xs = .error e) :
    ∃ i x, IsFirst (¬ ValidXList ·) xs i x ∧ e = .directive (.entry x) := by
  induction xs with
  | nil => cases h
  | cons x xs ih =>
      rw [validateXLists] at h
      rcases xlistDirective_cases x with ⟨hbad, hx⟩ | ⟨hvalid, d, hx, -⟩
      · rw [hx] at h
        cases h
        exact ⟨0, x, .head hbad, rfl⟩
      · cases hrest : validateXLists xs with
        | ok rest => rw [hx, hrest] at h; cases h
        | error e' =>
            rw [hx, hrest] at h
            cases h
            obtain ⟨i, y, hfirst, he⟩ := ih hrest
            exact ⟨i + 1, y, .tail (not_not.2 hvalid) hfirst, he⟩

end XLists

theorem insertFlag_sorted {x : String} {l : List String} (h : l.Pairwise (· < ·)) :
    (insertFlag x l).Pairwise (· < ·) := by
  fun_induction insertFlag x l with
  | case1 => exact List.pairwise_singleton _ _
  | case2 y ys hlt =>
      refine List.pairwise_cons.2 ⟨fun z hz => ?_, h⟩
      rcases List.mem_cons.1 hz with rfl | hz
      · exact hlt
      · exact String.lt_trans hlt (List.rel_of_pairwise_cons h hz)
  | case3 => exact h
  | case4 y ys hnlt hne ih =>
      refine List.pairwise_cons.2 ⟨fun z hz => ?_, ih h.of_cons⟩
      rcases mem_insertFlag.1 hz with rfl | hz
      · grind
      · exact List.rel_of_pairwise_cons h hz

theorem flagSet_sorted (flags : List String) : (flagSet flags).Pairwise (· < ·) := by
  induction flags with
  | nil => exact .nil
  | cons x flags ih => exact insertFlag_sorted ih

namespace Document

structure Valid (d : Document) : Prop where
  name : ¬ Missing d.name
  data : ∀ f ∈ d.data, f.Valid
  xlisted : ∀ x ∈ d.xlisted, ValidXList x
  includeIn : ∀ t ∈ d.includeIn, allBlank t = false

/-- What is wrong with a document. What comes before it is right. -/
inductive Faulty (d : Document) : Error → Prop
  | name (h : Missing d.name) : Faulty d .noName
  | field {i : Nat} {f : FieldEntry} {e : FieldFault} (hn : ¬ Missing d.name)
      (h : IsFirst (¬ FieldEntry.Valid ·) d.data i f) (he : f.Lacks e) : Faulty d (.field i e)
  | entry {i : Nat} {x : List String} (hn : ¬ Missing d.name) (hd : ∀ f ∈ d.data, f.Valid)
      (h : IsFirst (¬ ValidXList ·) d.xlisted i x) : Faulty d (.directive (.entry x))
  | target {t : String} (hn : ¬ Missing d.name) (hd : ∀ f ∈ d.data, f.Valid)
      (hx : ∀ x ∈ d.xlisted, ValidXList x) (ht : t ∈ d.includeIn) (h : allBlank t = true) :
      Faulty d (.directive .blankTarget)

/-- The schema of a document: its parts one by one, and its flags as a set. -/
structure Becomes (d : Document) (s : Schema) : Prop where
  name : Given d.name s.name
  scope : ∀ ns, s.scope = some ns ↔ Given d.scope ns
  fields : Forall₂ FieldEntry.Becomes d.data s.fields
  xlists : Forall₂ XListBecomes d.xlisted s.xlists
  includes : s.includes = d.includes
  includeIn : s.includeIn = d.includeIn
  flags : ∀ x, x ∈ s.flags ↔ x ∈ d.flags
  sorted : s.flags.Pairwise (· < ·)

variable {d : Document} {e : Error}

theorem Faulty.not_valid (h : d.Faulty e) : ¬ d.Valid := by
  intro hv
  cases h with
  | name h => exact hv.name h
  | field _ h => exact h.not_all fun f hf => not_not.2 (hv.data f hf)
  | entry _ _ h => exact h.not_all fun x hx => not_not.2 (hv.xlisted x hx)
  | target _ _ _ ht h =>
      rw [hv.includeIn _ ht] at h
      cases h

theorem Faulty.unique {e' : Error} (h : d.Faulty e) (h' : d.Faulty e') : e = e' := by
  cases h with
  | name hn =>
      cases h' with
      | name => rfl
      | field hn' | entry hn' | target hn' => exact absurd hn hn'
  | field hn h he =>
      cases h' with
      | name hn' => exact absurd hn' hn
      | field _ h' he' =>
          obtain ⟨rfl, rfl⟩ := h.unique h'
          rw [he.unique he']
      | entry _ hd | target _ hd => exact absurd (fun f hf => not_not.2 (hd f hf)) h.not_all
  | entry hn hd h =>
      cases h' with
      | name hn' => exact absurd hn' hn
      | field _ h' => exact absurd (fun f hf => not_not.2 (hd f hf)) h'.not_all
      | entry _ _ h' => rw [(h.unique h').2]
      | target _ _ hx => exact absurd (fun x hm => not_not.2 (hx x hm)) h.not_all
  | target hn hd hx ht h =>
      cases h' with
      | name hn' => exact absurd hn' hn
      | field _ h' => exact absurd (fun f hf => not_not.2 (hd f hf)) h'.not_all
      | entry _ _ h' => exact absurd (fun x hm => not_not.2 (hx x hm)) h'.not_all
      | target => rfl

theorem validate_cases (d : Document) :
    (∃ e, d.validate = .error e ∧ d.Faulty e) ∨ ∃ s, d.validate = .ok s ∧ d.Becomes s ∧ d.Valid := by
  rcases given_or_missing d.name with ⟨name, hn⟩ | hn
  · have hname := hn.not_missing
    simp only [validate, solid?_eq_some.2 hn]
    cases hfields : validateFields 0 d.data with
    | error e =>
        obtain ⟨i, f, fault, hfirst, hlacks, rfl⟩ := validateFields_error hfields
        rw [Nat.zero_add]
        exact .inl ⟨_, rfl, .field hname hfirst hlacks⟩
    | ok fields =>
        obtain ⟨hbecome, hdata⟩ := validateFields_ok hfields
        cases hxlists : validateXLists d.xlisted with
        | error e =>
            obtain ⟨i, x, hfirst, rfl⟩ := validateXLists_error hxlists
            exact .inl ⟨_, rfl, .entry hname hdata hfirst⟩
        | ok xlists =>
            obtain ⟨hdirect, hxlisted⟩ := validateXLists_ok hxlists
            by_cases hblank : d.includeIn.any allBlank = true
            · obtain ⟨t, ht, hb⟩ := List.any_eq_true.1 hblank
              exact .inl ⟨_, if_pos hblank, .target hname hdata hxlisted ht hb⟩
            · have hsolid := List.any_eq_false.1 (Bool.not_eq_true _ ▸ hblank)
              refine .inr ⟨_, if_neg hblank, ?_, hname, hdata, hxlisted,
                fun t ht => Bool.not_eq_true _ ▸ hsolid t ht⟩
              exact ⟨hn, fun ns => solid?_eq_some, hbecome, hdirect, rfl, rfl, fun x => mem_flagSet,
                flagSet_sorted d.flags⟩
  · simp only [validate, solid?_eq_none.2 hn]
    exact .inl ⟨_, rfl, .name hn⟩

/-- A document is a schema exactly if it is valid, and its parts are then those of the document in the same
order. If it is none, the error tells the first thing that is wrong with it; the message on a list directive
shows that directive. -/
theorem validate_iff (d : Document) :
    ((∃ s, d.validate = .ok s) ↔ d.Valid) ∧
    (∀ s, d.validate = .ok s → d.Becomes s) ∧
    (∀ e, d.validate = .error e ↔ d.Faulty e) ∧
    ∀ x, ∃ before, (Error.directive (.entry x)).message = before ++ Text.quotedList x := by
  refine ⟨?_, ?_, fun e => ?_, fun x => ⟨_, (String.append_assoc).symm⟩⟩
  all_goals rcases d.validate_cases with ⟨e', he, hfaulty⟩ | ⟨s, hs, hbecomes, hvalid⟩
  · simp only [he, reduceCtorEq, exists_false, hfaulty.not_valid]
  · exact ⟨fun _ => hvalid, fun _ => ⟨s, hs⟩⟩
  · intro s hs
    rw [he] at hs
    cases hs
  · intro s' hs'
    rw [hs] at hs'
    cases hs'
    exact hbecomes
  · rw [he, Except.error.injEq]
    exact ⟨fun h => h ▸ hfaulty, fun h => hfaulty.unique h⟩
  · rw [hs]
    exact ⟨fun h => absurd h (by simp), fun h => absurd hvalid h.not_valid⟩

end Document

end Schema

end EntityGen
