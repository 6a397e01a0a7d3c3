import EntityGen.Proofs.Json.Values
import Mathlib.Data.List.Pairwise

namespace EntityGen.Json

open Text.Utf8 (Bytes)

variable {α β γ : Type} {fs : Fields α} {m m' : Member} {ms ms' : List Member} {acc acc' b c : List String × α}

/-- The key is that of no field. -/
def Fields.Ignores (fs : Fields α) (m : Member) : Prop := ∃ k, m.name = .ok k ∧ k ∉ fs.map Prod.fst

theorem take_ignored (h : fs.Ignores m) (hv : IsValue m.value) (acc : List String × α) :
    take fs.enter acc m = .ok acc := by
  obtain ⟨k, hk, hnot⟩ := h
  have hl : fs.lookup k = none := by
    refine List.lookup_eq_none_iff.2 fun p hp => ?_
    rw [bne_iff_ne]
    rintro rfl
    exact hnot (List.mem_map_of_mem hp)
  simp only [take, hk, Fields.enter, hl, bind, Except.bind, Reader.reads_map, reads_pass hv]
  rfl

theorem take_known {k : String} {r : α → Reader α} {a : α} (hk : m.name = .ok k)
    (hl : fs.lookup k = some r) (hn : k ∉ acc.1) (hr : (r acc.2).reads m.value = .ok a) :
    take fs.enter acc m = .ok (k :: acc.1, a) := by
  simp only [take, hk, Fields.enter, hl, if_neg hn, bind, Except.bind, Reader.reads_map, hr]
  rfl

theorem take_cases (h : take fs.enter acc m = .ok b) :
    ((∀ s, take fs.enter s m = .ok s) ∧ b = acc) ∨
    ∃ k r a, m.name = .ok k ∧ fs.lookup k = some r ∧ k ∉ acc.1 ∧ (r acc.2).reads m.value = .ok a ∧
      b = (k :: acc.1, a) := by
  obtain ⟨k, hk, h⟩ := ok_of_bind h
  obtain ⟨reader, hent, h⟩ := ok_of_bind h
  rw [Fields.enter] at hent
  cases hl : fs.lookup k with
  | none =>
      rw [hl] at hent
      cases hent
      rw [Reader.reads_map] at h
      obtain ⟨u, hu, rfl⟩ := ok_of_map h
      refine .inl ⟨fun s => ?_, rfl⟩
      simp only [take, hk, Fields.enter, hl, bind, Except.bind, Reader.reads_map, hu]
      rfl
  | some r =>
      simp only [hl] at hent
      split at hent
      · cases hent
      next hn =>
        cases hent
        rw [Reader.reads_map] at h
        obtain ⟨a, ha, rfl⟩ := ok_of_map h
        exact .inr ⟨k, r, a, hk, hl, hn, ha, rfl⟩

/-- It does not matter which of the two fields is read first. -/
def Apart (r r' : α → Reader α) : Prop := ∀ v v' a c,
  (∃ b, (r a).reads v = .ok b ∧ (r' b).reads v' = .ok c) ↔ ∃ b, (r' a).reads v' = .ok b ∧ (r b).reads v = .ok c

theorem Apart.symm {r r' : α → Reader α} (h : Apart r r') : Apart r' r := fun v v' a c => (h v' v a c).symm

theorem apart_put (ρ : Reader β) (ρ' : Reader γ) {put : β → α → α} {put' : γ → α → α}
    (h : ∀ x y a, put' y (put x a) = put x (put' y a)) :
    Apart (fun a => ρ.map (put · a)) (fun a => ρ'.map (put' · a)) := by
  intro v v' a c
  simp only [Reader.reads_map]
  constructor
  · rintro ⟨_, hput, hput'⟩
    obtain ⟨x, hx, rfl⟩ := ok_of_map hput
    obtain ⟨y, hy, rfl⟩ := ok_of_map hput'
    exact ⟨put' y a, by rw [hy]; rfl, by rw [hx, h]; rfl⟩
  · rintro ⟨_, hput', hput⟩
    obtain ⟨y, hy, rfl⟩ := ok_of_map hput'
    obtain ⟨x, hx, rfl⟩ := ok_of_map hput
    exact ⟨put x a, by rw [hx]; rfl, by rw [hy, ← h]; rfl⟩

def Fields.Apart (fs : Fields α) : Prop := fs.Pairwise fun f f' => Json.Apart f.2 f'.2

theorem Fields.Apart.of_ne (h : fs.Apart) {k k' : String} {r r' : α → Reader α} (hr : fs.lookup k = some r)
    (hr' : fs.lookup k' = some r') (hne : k ≠ k') : Json.Apart r r' := by
  have : Std.Symm fun f f' : String × (α → Reader α) => Json.Apart f.2 f'.2 := ⟨fun _ _ h => h.symm⟩
  exact List.Pairwise.forall h (Fields.lookup_mem hr) (Fields.lookup_mem hr') fun he => hne (congrArg Prod.fst he)

/-- The same record, and the same keys were met. -/
structure Alike (acc acc' : List String × α) : Prop where
  keys : acc.1.Perm acc'.1
  record : acc.2 = acc'.2

theorem Alike.refl (acc : List String × α) : Alike acc acc := ⟨.refl _, rfl⟩

theorem Alike.trans (h : Alike acc acc') (h' : Alike acc' b) : Alike acc b :=
  ⟨h.keys.trans h'.keys, h.record.trans h'.record⟩

theorem take_alike (h : Alike acc acc') (ht : take fs.enter acc m = .ok b) :
    ∃ b', take fs.enter acc' m = .ok b' ∧ Alike b b' := by
  rcases take_cases ht with ⟨hpass, rfl⟩ | ⟨k, r, a, hk, hl, hn, hr, rfl⟩
  · exact ⟨acc', hpass acc', h⟩
  · have hn' : k ∉ acc'.1 := fun hmem => hn (h.keys.mem_iff.2 hmem)
    rw [h.record] at hr
    exact ⟨(k :: acc'.1, a), take_known hk hl hn' hr, h.keys.cons k, rfl⟩

theorem take_swap (hfs : fs.Apart) (h : take fs.enter acc m = .ok b) (h' : take fs.enter b m' = .ok c) :
    ∃ b' c', take fs.enter acc m' = .ok b' ∧ take fs.enter b' m = .ok c' ∧ Alike c c' := by
  rcases take_cases h with ⟨hpass, rfl⟩ | ⟨k, r, a, hk, hl, hn, hr, rfl⟩
  · exact ⟨c, c, h', hpass c, .refl c⟩
  rcases take_cases h' with ⟨hpass', rfl⟩ | ⟨k', r', a', hk', hl', hn', hr', rfl⟩
  · exact ⟨acc, _, hpass' acc, h, .refl _⟩
  obtain ⟨hne, hn'⟩ := not_or.1 fun hor => hn' (List.mem_cons.2 hor)
  obtain ⟨b, hb, hb'⟩ := (hfs.of_ne hl hl' (Ne.symm hne) _ _ _ _).1 ⟨a, hr, hr'⟩
  have hk_not : k ∉ k' :: acc.1 := List.not_mem_cons_of_ne_of_not_mem (Ne.symm hne) hn
  exact ⟨(k' :: acc.1, b), (k :: k' :: acc.1, a'), take_known hk' hl' hn' hb, take_known hk hl hk_not hb',
    .swap _ _ _, rfl⟩

theorem takes_alike (h : Alike acc acc') (ht : ms.foldlM (take fs.enter) acc = .ok b) :
    ∃ b', ms.foldlM (take fs.enter) acc' = .ok b' ∧ Alike b b' := by
  induction ms generalizing acc acc' with
  | nil =>
      cases ht
      exact ⟨acc', rfl, h⟩
  | cons m ms ih =>
      rw [List.foldlM_cons] at ht
      obtain ⟨c, hc, ht⟩ := ok_of_bind ht
      obtain ⟨c', hc', halike⟩ := take_alike h hc
      obtain ⟨b', hb', hb⟩ := ih halike ht
      exact ⟨b', by rw [List.foldlM_cons, hc']; exact hb', hb⟩

theorem takes_perm (hfs : fs.Apart) (hp : ms.Perm ms') (ht : ms.foldlM (take fs.enter) acc = .ok b) :
    ∃ b', ms'.foldlM (take fs.enter) acc = .ok b' ∧ Alike b b' := by
  induction hp generalizing acc b with
  | nil => exact ⟨b, ht, .refl b⟩
  | cons m _ ih =>
      rw [List.foldlM_cons] at ht
      obtain ⟨c, hc, ht⟩ := ok_of_bind ht
      obtain ⟨b', hb', hb⟩ := ih ht
      exact ⟨b', by rw [List.foldlM_cons, hc]; exact hb', hb⟩
  | swap m m' ms =>
      rw [List.foldlM_cons] at ht
      obtain ⟨c, hc, ht⟩ := ok_of_bind ht
      rw [List.foldlM_cons] at ht
      obtain ⟨d, hd, ht⟩ := ok_of_bind ht
      obtain ⟨c', d', hc', hd', halike⟩ := take_swap hfs hc hd
      obtain ⟨b', hb', hb⟩ := takes_alike halike ht
      refine ⟨b', ?_, hb⟩
      rw [List.foldlM_cons, hc']
      change (take fs.enter c' m' >>= ms.foldlM (take fs.enter)) = .ok b'
      rw [hd']
      exact hb'
  | trans _ _ ih ih' =>
      obtain ⟨c, hc, halike⟩ := ih ht
      obtain ⟨b', hb', hb⟩ := ih' hc
      exact ⟨b', hb', halike.trans hb⟩

theorem takes_ignored (h : ∀ m ∈ ms, fs.Ignores m) (hv : ∀ m ∈ ms, IsValue m.value) (acc : List String × α) :
    ms.foldlM (take fs.enter) acc = .ok acc := by
  induction ms with
  | nil => rfl
  | cons m ms ih =>
      obtain ⟨hm, hms⟩ := List.forall_mem_cons.1 h
      obtain ⟨hmv, hmsv⟩ := List.forall_mem_cons.1 hv
      rw [List.foldlM_cons, take_ignored hm hmv]
      exact ih hms hmsv

theorem takes_forall₂ {R : Member → Member → Prop}
    (hR : ∀ m m', R m m' → ∀ acc b, take fs.enter acc m = .ok b → take fs.enter acc m' = .ok b)
    (h : List.Forall₂ R ms ms') (ht : ms.foldlM (take fs.enter) acc = .ok b) :
    ms'.foldlM (take fs.enter) acc = .ok b := by
  induction h generalizing acc with
  | nil => exact ht
  | cons hm _ ih =>
      rw [List.foldlM_cons] at ht ⊢
      obtain ⟨c, hc, ht⟩ := ok_of_bind ht
      rw [hR _ _ hm acc c hc]
      exact ih ht

/-- From `ms` by changing each member as `R` says, adding members that no field has, and reordering. -/
def Shuffled (fs : Fields α) (R : Member → Member → Prop) (ms ms' : List Member) : Prop :=
  ∃ kept added, List.Forall₂ R ms kept ∧ (∀ m ∈ added, fs.Ignores m) ∧ ms'.Perm (kept ++ added)

/-- A record is read as before if each member is. -/
theorem reads_shuffled {R : Member → Member → Prop} {start a : α} {v v' : Bytes} (hapt : fs.Apt)
    (hfs : fs.Apart) (hR : ∀ m m', R m m' → ∀ acc b, take fs.enter acc m = .ok b → take fs.enter acc m' = .ok b)
    (hs : Shuffled fs R ms ms') (h : IsRecord ms v) (h' : IsRecord ms' v')
    (hread : (record fs start).reads v = .ok a) : (record fs start).reads v' = .ok a := by
  obtain ⟨kept, added, hkept, hadded, hperm⟩ := hs
  rw [reads_record hapt start h] at hread
  obtain ⟨b, hb, rfl⟩ := ok_of_map hread
  have hvalues : ∀ m ∈ added, IsValue m.value := fun m hm =>
    h'.values m (hperm.mem_iff.2 (List.mem_append_right _ hm))
  have hall : (kept ++ added).foldlM (take fs.enter) ([], start) = .ok b := by
    rw [List.foldlM_append, takes_forall₂ hR hkept hb]
    exact takes_ignored hadded hvalues b
  obtain ⟨b', hb', halike⟩ := takes_perm hfs hperm.symm hall
  rw [reads_record hapt start h', hb', halike.record]
  rfl

end EntityGen.Json
