import EntityGen.Listing
import Mathlib.Data.List.Basic
import Mathlib.Data.List.Induction
import Mathlib.Data.List.Nodup

namespace EntityGen.Listing

section

variable {β γ κ μ : Type} [DecidableEq κ] [DecidableEq μ] {key : β → κ} {coarse : β → μ} {p : β → Bool}

/-- The first of each key, in order. -/
def firsts (key : β → κ) : List β → List β
  | [] => []
  | c :: cs => c :: (firsts key cs).filter (key · ≠ key c)

theorem firsts_sublist (cs : List β) : (firsts key cs).Sublist cs := by
  induction cs with
  | nil => exact .slnil
  | cons c cs ih => exact (List.filter_sublist.trans ih).cons_cons c

theorem keys_firsts_nodup (cs : List β) : ((firsts key cs).map key).Nodup := by
  induction cs with
  | nil => exact .nil
  | cons c cs ih =>
      rw [firsts, List.map_cons, List.nodup_cons]
      refine ⟨fun h => ?_, ih.sublist (List.filter_sublist.map key)⟩
      obtain ⟨c', hc', he⟩ := List.mem_map.1 h
      simpa [he] using (List.mem_filter.1 hc').2

theorem mem_keys_firsts {cs : List β} {k : κ} : k ∈ (firsts key cs).map key ↔ k ∈ cs.map key := by
  induction cs with
  | nil => rfl
  | cons c cs ih =>
      by_cases hk : k = key c
      · simp [firsts, hk]
      · have hf : k ∈ ((firsts key cs).filter (key · ≠ key c)).map key ↔ k ∈ (firsts key cs).map key := by
          simp only [List.mem_map, List.mem_filter, decide_eq_true_eq]
          exact ⟨fun ⟨a, ha, he⟩ => ⟨a, ha.1, he⟩, fun ⟨a, ha, he⟩ => ⟨a, ⟨ha, he ▸ hk⟩, he⟩⟩
        rw [firsts, List.map_cons, List.mem_cons, List.map_cons, List.mem_cons, hf, ih]

theorem firsts_append (cs ds : List β) :
    firsts key (cs ++ ds) = firsts key cs ++ (firsts key ds).filter (key · ∉ cs.map key) := by
  induction cs with
  | nil => simp [firsts]
  | cons c cs ih =>
      rw [List.cons_append, firsts, firsts, ih, List.filter_append, List.filter_filter, List.cons_append]
      congr 2
      apply List.filter_congr
      intro d _
      simp [not_or]

theorem firsts_concat (cs : List β) (c : β) :
    firsts key (cs ++ [c]) = if key c ∈ cs.map key then firsts key cs else firsts key cs ++ [c] := by
  have hone : firsts key [c] = [c] := rfl
  rw [firsts_append, hone]
  split
  next h => rw [List.filter_cons_of_neg (by simpa using h), List.filter_nil, List.append_nil]
  next h => rw [List.filter_cons_of_pos (by simpa using h), List.filter_nil]

theorem filter_firsts (hp : ∀ a b, key a = key b → p a = p b) (cs : List β) :
    (firsts key cs).filter p = firsts key (cs.filter p) := by
  induction cs with
  | nil => rfl
  | cons c cs ih =>
      have hcomm : ((firsts key cs).filter (key · ≠ key c)).filter p =
          (firsts key (cs.filter p)).filter (key · ≠ key c) := by
        rw [← ih, List.filter_filter, List.filter_filter]
        simp only [Bool.and_comm]
      cases hc : p c with
      | true => rw [firsts, List.filter_cons_of_pos hc, List.filter_cons_of_pos hc, firsts, hcomm]
      | false =>
          -- Those of the key of `c` fail the test as `c` does.
          have hnone : ∀ a ∈ firsts key (cs.filter p), decide (key a ≠ key c) = true := by
            intro a ha
            have hpa := (List.mem_filter.1 ((firsts_sublist _).subset ha)).2
            exact decide_eq_true fun he => by rw [hp a c he, hc] at hpa; cases hpa
          have hn : ¬ p c = true := by simp [hc]
          rw [firsts, List.filter_cons_of_neg hn, List.filter_cons_of_neg hn, hcomm,
            List.filter_eq_self.2 hnone]

theorem firsts_map (f : γ → β) (cs : List γ) :
    firsts key (cs.map f) = (firsts (fun c => key (f c)) cs).map f := by
  induction cs with
  | nil => rfl
  | cons c cs ih => rw [List.map_cons, firsts, ih, firsts, List.map_cons, List.filter_map]; rfl

theorem firsts_firsts {cs : List β} (h : ∀ a ∈ cs, ∀ b ∈ cs, key a = key b → coarse a = coarse b) :
    firsts coarse (firsts key cs) = firsts coarse cs := by
  induction cs with
  | nil => rfl
  | cons c cs ih =>
      have hsame : ∀ a b, coarse a = coarse b → decide (coarse a ≠ coarse c) = decide (coarse b ≠ coarse c) :=
        fun a b he => by rw [he]
      have ih := ih fun a ha b hb => h a (List.mem_cons_of_mem c ha) b (List.mem_cons_of_mem c hb)
      rw [firsts, firsts, firsts, filter_firsts hsame, List.filter_filter, ← ih, filter_firsts hsame]
      congr 2
      apply List.filter_congr
      intro a ha
      have ha : a ∈ c :: cs := List.mem_cons_of_mem c ((firsts_sublist cs).subset ha)
      by_cases he : coarse a = coarse c
      · simp [he]
      · simp [he, mt (h a ha c List.mem_cons_self) he]

theorem firsts_of_nodup {cs : List β} (h : (cs.map key).Nodup) : firsts key cs = cs := by
  induction cs with
  | nil => rfl
  | cons c cs ih =>
      obtain ⟨hc, hn⟩ := List.nodup_cons.1 h
      rw [firsts, ih hn, List.filter_eq_self.2]
      intro a ha
      exact decide_eq_true fun he => hc (he ▸ List.mem_map_of_mem ha)

theorem length_firsts {cs : List β} (h : ∀ a ∈ cs, ∀ b ∈ cs, key a = key b → coarse a = coarse b) :
    (firsts coarse cs).length = (firsts key cs).length ↔
      ∀ a ∈ cs, ∀ b ∈ cs, coarse a = coarse b → key a = key b := by
  have hmem : ∀ a ∈ firsts key cs, a ∈ cs := fun a ha => (firsts_sublist cs).subset ha
  rw [← firsts_firsts h]
  constructor
  · intro hlength a ha b hb hab
    have hnodup : ((firsts key cs).map coarse).Nodup := by
      rw [← (firsts_sublist (firsts key cs)).eq_of_length hlength]
      exact keys_firsts_nodup _
    obtain ⟨a', ha', hka⟩ := List.mem_map.1 (mem_keys_firsts.2 (List.mem_map_of_mem (f := key) ha))
    obtain ⟨b', hb', hkb⟩ := List.mem_map.1 (mem_keys_firsts.2 (List.mem_map_of_mem (f := key) hb))
    have hab' : coarse a' = coarse b' :=
      (h a' (hmem a' ha') a ha hka).trans (hab.trans (h b' (hmem b' hb') b hb hkb).symm)
    rw [← hka, ← hkb, List.inj_on_of_nodup_map hnodup ha' hb' hab']
  · intro hinj
    have hkeys : (firsts key cs).Pairwise fun a b => key a ≠ key b :=
      List.pairwise_map.1 (keys_firsts_nodup cs)
    rw [firsts_of_nodup]
    exact List.pairwise_map.2 (hkeys.imp_of_mem fun ha hb hne he => hne (hinj _ (hmem _ ha) _ (hmem _ hb) he))

theorem eraseDups_concat (l : List κ) (a : κ) :
    (l ++ [a]).eraseDups = if a ∈ l then l.eraseDups else l.eraseDups ++ [a] := by
  rw [List.eraseDups_append]
  by_cases h : a ∈ l
  · simp [List.removeAll, h]
  · simp [List.removeAll, h, List.eraseDups_cons]

theorem eraseDups_append_congr {l l' : List κ} (h : l.eraseDups = l'.eraseDups) (ks : List κ) :
    (l ++ ks).eraseDups = (l' ++ ks).eraseDups := by
  have hmem : ∀ k, k ∈ l ↔ k ∈ l' := fun k => by rw [← List.mem_eraseDups, h, List.mem_eraseDups]
  induction ks using List.reverseRecOn with
  | nil => simpa using h
  | append_singleton ks k ih =>
      rw [← List.append_assoc, ← List.append_assoc, eraseDups_concat, eraseDups_concat, ih]
      simp only [List.mem_append, hmem]

theorem eraseDups_append_of_mem {l ks : List κ} (h : ∀ k ∈ ks, k ∈ l) : (l ++ ks).eraseDups = l.eraseDups := by
  induction ks using List.reverseRecOn with
  | nil => rw [List.append_nil]
  | append_singleton ks k ih =>
      have hk : k ∈ l ++ ks := List.mem_append_left ks (h k (by simp))
      rw [← List.append_assoc, eraseDups_concat, if_pos hk, ih fun k' hk' => h k' (List.mem_append_left [k] hk')]

theorem eraseDups_append_same (l : List κ) (k : κ) (cs : List β) :
    (l ++ cs.map fun _ => k).eraseDups = if cs = [] then l.eraseDups else (l ++ [k]).eraseDups := by
  cases cs with
  | nil => simp
  | cons c cs =>
      rw [if_neg (List.cons_ne_nil c cs), List.map_cons, List.append_cons, eraseDups_append_of_mem]
      intro k' hk'
      obtain ⟨_, -, rfl⟩ := List.mem_map.1 hk'
      simp

theorem firsts_congr {key' : β → μ} {cs : List β}
    (h : ∀ a ∈ cs, ∀ b ∈ cs, key a = key b ↔ key' a = key' b) : firsts key cs = firsts key' cs := by
  induction cs with
  | nil => rfl
  | cons c cs ih =>
      rw [firsts, firsts, ← ih fun a ha b hb => h a (List.mem_cons_of_mem _ ha) b (List.mem_cons_of_mem _ hb)]
      congr 1
      apply List.filter_congr
      intro a ha
      have ha := List.mem_cons_of_mem c ((firsts_sublist _).subset ha)
      exact decide_eq_decide.2 (not_congr (h a ha c List.mem_cons_self))

theorem eraseDups_map (cs : List β) : (cs.map key).eraseDups = (firsts key cs).map key := by
  induction cs using List.reverseRecOn with
  | nil => rfl
  | append_singleton cs c ih =>
      rw [List.map_append, List.map_singleton, eraseDups_concat, ih, firsts_concat]
      split
      · rfl
      · rw [List.map_append, List.map_singleton]

theorem nodup_eraseDups (l : List κ) : l.eraseDups.Nodup := by
  rw [← List.map_id l, eraseDups_map]
  exact keys_firsts_nodup l

end

namespace Keyed

variable {β κ α : Type} {key : β → κ} {name : α → κ} {x : Keyed κ α} {k : κ} {f : α → α} {new a : α}

/-- Each key has one place, where its list is, and each list has a key. -/
structure Sound (name : α → κ) (x : Keyed κ α) : Prop where
  points : ∀ e ∈ x.places, ∃ h : e.2 < x.lists.length, name (x.lists.get ⟨e.2, h⟩) = e.1
  placed : ∀ i : Fin x.lists.length, (name (x.lists.get i), i.val) ∈ x.places
  nodup : (x.places.map Prod.fst).Nodup

theorem Sound.empty : (empty : Keyed κ α).Sound name := ⟨by simp [Keyed.empty], fun i => i.elim0, .nil⟩

theorem Sound.mem_keys (h : x.Sound name) : k ∈ x.places.map Prod.fst ↔ k ∈ x.lists.map name := by
  rw [List.mem_map, List.mem_map]
  constructor
  · rintro ⟨e, he, rfl⟩
    obtain ⟨hlt, hname⟩ := h.points e he
    exact ⟨_, List.get_mem _ _, hname⟩
  · rintro ⟨a, ha, rfl⟩
    obtain ⟨i, rfl⟩ := List.get_of_mem ha
    exact ⟨_, h.placed i, rfl⟩

theorem Sound.place_unique (h : x.Sound name) {i j : Fin x.lists.length}
    (hij : name (x.lists.get i) = name (x.lists.get j)) : i = j := by
  have hi := h.placed i
  rw [hij] at hi
  exact Fin.ext (congrArg Prod.snd (List.inj_on_of_nodup_map h.nodup hi (h.placed j) rfl))

theorem Sound.set (h : x.Sound name) (i : Fin x.lists.length) (ha : name a = name (x.lists.get i)) :
    (x.set i a).Sound name := by
  have hsame : ∀ j (hj : j < (x.set i a).lists.length) (hj' : j < x.lists.length),
      name ((x.set i a).lists.get ⟨j, hj⟩) = name (x.lists.get ⟨j, hj'⟩) := by
    intro j hj hj'
    simp only [Keyed.set, List.get_eq_getElem, List.getElem_set]
    split
    next he => rw [ha, List.get_eq_getElem]; simp only [he]
    · rfl
  refine ⟨fun e he => ?_, fun j => ?_, h.nodup⟩
  · obtain ⟨hlt, hname⟩ := h.points e he
    exact ⟨(x.set i a).inRange e he, (hsame _ _ hlt).trans hname⟩
  · have hj : j.val < x.lists.length := by simpa [Keyed.set] using j.isLt
    rw [hsame j.val j.isLt hj]
    exact h.placed ⟨j, hj⟩

theorem Sound.add (h : x.Sound name) (hk : k ∉ x.lists.map name) (ha : name a = k) :
    (x.add k a).Sound name := by
  have hold : ∀ j (hj : j < (x.add k a).lists.length) (hj' : j < x.lists.length),
      (x.add k a).lists.get ⟨j, hj⟩ = x.lists.get ⟨j, hj'⟩ := fun j _ hj' => List.getElem_append_left hj'
  have hlast : ∀ hj : x.lists.length < (x.add k a).lists.length,
      (x.add k a).lists.get ⟨x.lists.length, hj⟩ = a := fun _ => by simp [Keyed.add]
  refine ⟨fun e he => ?_, fun j => ?_, ?_⟩
  · refine ⟨(x.add k a).inRange e he, ?_⟩
    rcases List.mem_append.1 he with he | he
    · obtain ⟨hlt, hname⟩ := h.points e he
      rw [hold _ _ hlt, hname]
    · cases List.mem_singleton.1 he
      rw [hlast, ha]
  · obtain ⟨j, hj⟩ := j
    rcases Nat.lt_or_ge j x.lists.length with hlt | hge
    · rw [hold _ _ hlt]
      exact List.mem_append_left _ (h.placed ⟨j, hlt⟩)
    · have hj' := hj
      simp only [Keyed.add, List.length_append, List.length_singleton] at hj'
      cases Nat.le_antisymm hge (Nat.le_of_lt_succ hj')
      rw [hlast, ha]
      exact List.mem_append_right _ List.mem_cons_self
  · have hnew : k ∉ x.places.map Prod.fst := mt h.mem_keys.1 hk
    simp only [Keyed.add, List.map_append, List.map_singleton]
    rw [← List.concat_eq_append]
    exact h.nodup.concat hnew

variable [DecidableEq κ]

theorem place?_eq_none : x.place? k = none ↔ k ∉ x.places.map Prod.fst := by
  simp only [place?, Option.map_eq_none_iff, List.find?_eq_none, List.mem_map, decide_eq_true_eq]
  constructor
  · rintro hno ⟨e, he, hk⟩
    exact hno ⟨e, he⟩ (List.mem_attach _ _) hk
  · intro hno e _ hk
    exact hno ⟨e.1, e.2, hk⟩

theorem Sound.place?_eq_some (h : x.Sound name) {i : Fin x.lists.length} :
    x.place? k = some i ↔ name (x.lists.get i) = k := by
  have hfound : ∀ j, x.place? k = some j → name (x.lists.get j) = k := by
    intro j hj
    obtain ⟨e, he, rfl⟩ := Option.map_eq_some_iff.1 hj
    obtain ⟨_, hname⟩ := h.points e.1 e.2
    exact hname.trans (by simpa using List.find?_some he)
  refine ⟨hfound i, fun hi => ?_⟩
  cases hk : x.place? k with
  | none => exact absurd (List.mem_map_of_mem (h.placed i)) (hi ▸ place?_eq_none.1 hk)
  | some j => rw [h.place_unique ((hfound j hk).trans hi.symm)]

theorem Sound.place?_none (h : x.Sound name) : x.place? k = none ↔ k ∉ x.lists.map name :=
  place?_eq_none.trans (not_congr h.mem_keys)

theorem Sound.find?_eq (h : x.Sound name) : x.find? k = x.lists.find? (name · = k) := by
  rw [Keyed.find?]
  cases hp : x.place? k with
  | none =>
      have hno := h.place?_none.1 hp
      symm
      rw [Option.map_none, List.find?_eq_none]
      exact fun a ha he => hno (List.mem_map.2 ⟨a, ha, of_decide_eq_true he⟩)
  | some i =>
      have hi := h.place?_eq_some.1 hp
      rw [Option.map_some]
      cases hf : x.lists.find? (name · = k) with
      | none => exact absurd (decide_eq_true hi) (List.find?_eq_none.1 hf _ (List.get_mem _ i))
      | some a =>
          obtain ⟨j, rfl⟩ := List.get_of_mem (List.mem_of_find?_eq_some hf)
          have hj : name (x.lists.get j) = k := by simpa using List.find?_some hf
          rw [h.place_unique (hi.trans hj.symm)]

theorem Sound.update (h : x.Sound name) (hnew : name new = k) (hf : ∀ a, name (f a) = name a) :
    (x.update k new f).Sound name := by
  rw [Keyed.update]
  cases hp : x.place? k with
  | none => exact h.add (h.place?_none.1 hp) ((hf new).trans hnew)
  | some i => exact h.set i (hf _)

/-- Only the list of the key changes, and a key that has none gets one after all others. -/
theorem Sound.update_lists (h : x.Sound name) : (x.update k new f).lists =
    if k ∈ x.lists.map name then x.lists.map fun a => if name a = k then f a else a
    else x.lists ++ [f new] := by
  rw [Keyed.update]
  cases hp : x.place? k with
  | none => rw [if_neg (h.place?_none.1 hp)]; rfl
  | some i =>
      have hi := h.place?_eq_some.1 hp
      rw [if_pos (List.mem_map.2 ⟨_, List.get_mem _ i, hi⟩)]
      apply List.ext_getElem
      · simp [Keyed.set]
      · intro j hj hj'
        have hlt : j < x.lists.length := by simpa using hj'
        simp only [Keyed.set, List.getElem_set, List.getElem_map]
        by_cases he : i.val = j
        · subst he
          have hname : name x.lists[i.val] = k := hi
          rw [if_pos rfl, if_pos hname]
          rfl
        · have hne : name x.lists[j] ≠ k := fun hc =>
            he (congrArg Fin.val (h.place_unique (j := ⟨j, hlt⟩) (hi.trans hc.symm)))
          rw [if_neg he, if_neg hne]

/-- After these calls: the first one of a key begins its list, and each one is taken into it. -/
def gather (key : β → κ) (begun : β → α) (take : β → α → α) (cs : List β) : Keyed κ α :=
  cs.foldl (fun x c => x.update (key c) (begun c) (take c)) .empty

variable {begun : β → α} {take : β → α → α}

theorem gather_concat (cs : List β) (c : β) : gather key begun take (cs ++ [c]) =
    (gather key begun take cs).update (key c) (begun c) (take c) := List.foldl_concat ..

theorem gather_sound (hb : ∀ c, name (begun c) = key c) (ht : ∀ c a, name (take c a) = name a)
    (cs : List β) : (gather key begun take cs).Sound name := by
  induction cs using List.reverseRecOn with
  | nil => exact .empty
  | append_singleton cs c ih =>
      rw [gather_concat]
      exact ih.update (hb c) (ht c)

/-- The list of a key holds all that the calls of the key add, and stands where the first of them put it. -/
theorem gather_lists (hb : ∀ c, name (begun c) = key c) (ht : ∀ c a, name (take c a) = name a)
    (cs : List β) : (gather key begun take cs).lists = (firsts key cs).map fun c =>
      (cs.filter (key · = key c)).foldl (fun a c' => take c' a) (begun c) := by
  -- What is taken into a list leaves its key.
  have hname : ∀ (ds : List β) (a : α), name (ds.foldl (fun a c' => take c' a) a) = name a := by
    intro ds
    induction ds with
    | nil => exact fun _ => rfl
    | cons d ds ih => exact fun a => (ih _).trans (ht d a)
  induction cs using List.reverseRecOn with
  | nil => rfl
  | append_singleton cs c ih =>
      have hkeys : (gather key begun take cs).lists.map name = (firsts key cs).map key := by
        rw [ih, List.map_map]
        exact List.map_congr_left fun e _ => (hname _ _).trans (hb e)
      rw [gather_concat, (gather_sound hb ht cs).update_lists, hkeys, ih, firsts_concat]
      simp only [mem_keys_firsts]
      split
      next hc =>
        rw [List.map_map]
        apply List.map_congr_left
        intro e _
        rw [Function.comp_apply, hname, hb, List.filter_append, List.foldl_append]
        by_cases he : key e = key c
        · simp [he]
        · simp [he, Ne.symm he]
      next hc =>
        have hnone : cs.filter (key · = key c) = [] := by
          rw [List.filter_eq_nil_iff]
          exact fun a ha he => hc (List.mem_map.2 ⟨a, ha, of_decide_eq_true he⟩)
        rw [List.map_append, List.map_singleton]
        congr 1
        · apply List.map_congr_left
          intro e he
          have hne : key c ≠ key e := fun h => hc (h ▸ List.mem_map_of_mem ((firsts_sublist _).subset he))
          simp [List.filter_append, hne]
        · simp [List.filter_append, hnone]

end Keyed

end EntityGen.Listing
