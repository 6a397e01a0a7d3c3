import EntityGen.Proofs.Disk.Lookup

namespace EntityGen.Disk

variable {d d' d'' : Disk} {p : Path} {l m : Location} {ss : List String} {f : Fault}

/-- Files may get a new content. -/
structure Grows (d d' : Disk) : Prop where
  workingDirectory : d'.workingDirectory = d.workingDirectory
  directory : ∀ {l}, d.node? l = some .directory → d'.node? l = some .directory
  file : ∀ {l b}, d.node? l = some (.file b) → ∃ c, d'.node? l = some (.file c)
  sink : ∀ {l}, d.node? l = some .sink → d'.node? l = some .sink

/-- What is in a place is in a directory, and the working directory is one. -/
structure IsTree (d : Disk) : Prop where
  workingDirectory : d.node? d.workingDirectory = some .directory
  parent : ∀ {l s n}, d.node? (l ++ [s]) = some n → d.node? l = some .directory

/-- Only directories are new, and each was made in one. -/
structure Furnishes (d d' : Disk) : Prop where
  workingDirectory : d'.workingDirectory = d.workingDirectory
  node : ∀ l, d'.node? l = d.node? l ∨ d.node? l = none ∧ d'.node? l = some .directory
  isTree : d.IsTree → d'.IsTree

theorem Grows.refl (d : Disk) : d.Grows d := ⟨rfl, id, fun h => ⟨_, h⟩, id⟩

theorem Grows.trans (h : d.Grows d') (h' : d'.Grows d'') : d.Grows d'' where
  workingDirectory := h'.workingDirectory.trans h.workingDirectory
  directory hl := h'.directory (h.directory hl)
  file hl := (h.file hl).elim fun _ hc => h'.file hc
  sink hl := h'.sink (h.sink hl)

theorem Furnishes.refl (d : Disk) : d.Furnishes d := ⟨rfl, fun _ => .inl rfl, id⟩

theorem Furnishes.keep (h : d.Furnishes d') {n : Node} (hl : d.node? l = some n) :
    d'.node? l = some n := by
  rcases h.node l with he | ⟨hn, _⟩
  · rw [he, hl]
  · rw [hl] at hn; cases hn

theorem Furnishes.grows (h : d.Furnishes d') : d.Grows d' :=
  ⟨h.workingDirectory, h.keep, fun hl => ⟨_, h.keep hl⟩, h.keep⟩

theorem Furnishes.trans (h : d.Furnishes d') (h' : d'.Furnishes d'') : d.Furnishes d'' where
  workingDirectory := h'.workingDirectory.trans h.workingDirectory
  node l := by
    rcases h.node l with he | ⟨hn, hd⟩
    · rw [← he]; exact h'.node l
    · exact .inr ⟨hn, h'.keep hd⟩
  isTree := h'.isTree ∘ h.isTree

theorem Grows.start (h : d.Grows d') (p : Path) : d'.start p = d.start p := by
  rw [Disk.start, Disk.start, h.workingDirectory]

theorem Grows.exists_node (h : d.Grows d') {n : Node} (hl : d.node? l = some n) :
    ∃ n', d'.node? l = some n' ∧ (n' = .directory ↔ n = .directory) := by
  cases n with
  | directory => exact ⟨_, h.directory hl, Iff.rfl⟩
  | file b =>
      obtain ⟨c, hc⟩ := h.file hl
      exact ⟨_, hc, by simp⟩
  | sink => exact ⟨_, h.sink hl, by simp⟩

theorem Grows.follow_ok (h : d.Grows d') (hm : d.follow l ss = .ok m) : d'.follow l ss = .ok m := by
  induction ss generalizing l with
  | nil => exact hm
  | cons s ss ih =>
      obtain ⟨hn, k, hs, hk⟩ := follow_cons s |>.1 hm
      exact (follow_cons s).2 ⟨h.directory hn, k, hs, ih hk⟩

theorem Grows.follow_error (h : d.Grows d') (hf : f ≠ .notFound) (hm : d.follow l ss = .error f) :
    d'.follow l ss = .error f := by
  induction ss generalizing l with
  | nil => cases hm
  | cons s ss ih =>
      rw [follow] at hm ⊢
      cases hn : d.node? l with
      | none => rw [hn] at hm; exact absurd (Except.error.inj hm).symm hf
      | some n =>
          obtain ⟨n', hn', hd⟩ := h.exists_node hn
          rw [hn] at hm
          rw [hn']
          cases n with
          | directory =>
              rw [hd.2 rfl]
              cases hs : step l s with
              | error g => rw [hs] at hm; exact hm
              | ok k => rw [hs] at hm; exact ih hm
          | file b | sink => cases n' <;> simp_all

theorem Grows.locate_ok (h : d.Grows d') (hl : d.locate p = .ok l) : d'.locate p = .ok l := by
  obtain ⟨ha, hl⟩ := Disk.locate_ok hl
  rw [locate_admitted ha, h.start]
  exact h.follow_ok hl

theorem Grows.locate_error (h : d.Grows d') (hf : f ≠ .notFound) (hl : d.locate p = .error f) :
    d'.locate p = .error f := by
  rw [locate] at hl ⊢
  split at hl
  · exact hl
  · rw [h.start]
    exact h.follow_error hf hl

theorem Grows.find_error (h : d.Grows d') (hf : f ≠ .notFound) (hp : d.find p = .error f) :
    d'.find p = .error f :=
  find_of_locate_error (h.locate_error hf (Disk.find_error hp hf))

theorem Grows.find_notFound (h : d.Grows d') (hp : d'.find p = .error .notFound) :
    d.find p = .error .notFound := by
  cases hf : d.find p with
  | error f =>
      by_cases hne : f = .notFound
      · rw [hne]
      · rw [h.find_error hne hf] at hp
        exact hp
  | ok n =>
      obtain ⟨l, hl, hn⟩ := find_ok.1 hf
      obtain ⟨n', hn', -⟩ := h.exists_node hn
      rw [find_ok.2 ⟨l, h.locate_ok hl, hn'⟩] at hp
      cases hp

theorem Grows.missing_or_leads (h : d.Grows d') (hl : d'.locate p = .ok l) :
    d.find p = .error .notFound ∨ d.locate p = .ok l := by
  cases hk : d.locate p with
  | error f =>
      by_cases hf : f = .notFound
      · exact .inl (find_of_locate_error (hf ▸ hk))
      · rw [h.locate_error hf hk] at hl
        cases hl
  | ok k =>
      rw [h.locate_ok hk] at hl
      exact .inr hl

theorem Grows.slot_ok (h : d.Grows d') {s : String} (hs : d.slot p = .ok (l, s)) :
    d'.slot p = .ok (l, s) := by
  obtain ⟨ha, hl, hn, rfl⟩ := Disk.slot_ok hs
  exact slot_of_follow ha (by rw [h.start]; exact h.follow_ok hl) (h.directory hn)

end EntityGen.Disk
