import EntityGen.Proofs.Disk.Making

namespace EntityGen.Disk

variable {d d' : Disk} {p : Path} {l m : Location} {ss : List String} {n : Node}

/-- The segments that lead on. -/
def steps (ss : List String) : List String := ss.filter (· ≠ ".")

theorem steps_append (ss ts : List String) : steps (ss ++ ts) = steps ss ++ steps ts :=
  List.filter_append ..

theorem steps_of_here (h : ∀ s ∈ ss, s = ".") : steps ss = [] :=
  List.filter_eq_nil_iff.2 fun s hs => by simp [h s hs]

theorem follow_plain (hp : ".." ∉ ss) (h : d.follow l ss = .ok m) : m = l ++ steps ss := by
  induction ss generalizing l with
  | nil =>
      cases h
      simp [steps]
  | cons s ss ih =>
      obtain ⟨-, k, hk, h⟩ := (follow_cons s).1 h
      rw [List.mem_cons, not_or] at hp
      rw [ih hp.2 h]
      by_cases hs : s = "."
      · simp only [step, hs, if_true, Except.ok.injEq] at hk
        simp [steps, hs, hk]
      · rw [step, if_neg hs, if_neg (Ne.symm hp.1)] at hk
        split at hk
        · cases hk
        · cases hk
          simp [steps, hs]

theorem follow_steps (h : d.follow l ss = .ok m) : d.follow l (steps ss) = .ok m := by
  induction ss generalizing l with
  | nil => exact h
  | cons s ss ih =>
      obtain ⟨hn, k, hk, hrest⟩ := (follow_cons s).1 h
      by_cases hs : s = "."
      · have hstay : k = l := by simpa [step, hs, eq_comm] using hk
        have hskip : steps (s :: ss) = steps ss := by simp [steps, hs]
        rw [hskip, ← hstay]
        exact ih hrest
      · have hkeep : steps (s :: ss) = s :: steps ss := by simp [steps, hs]
        rw [hkeep]
        exact (follow_cons s).2 ⟨hn, k, hk, ih hrest⟩

theorem IsTree.follow (ht : d.IsTree) (hg : d.Grows d') (hn : d.node? l = some n) (hp : ".." ∉ ss)
    (h : d'.follow m ss = .ok l) : d.follow m ss = .ok l := by
  induction ss generalizing m with
  | nil => exact h
  | cons s ss ih =>
      -- Without a way back up, `m` is `l` itself or a place that `l` is in: a directory already in `d`.
      have hl := follow_plain hp h
      obtain ⟨hm, k, hk, hrest⟩ := (follow_cons s).1 h
      refine (follow_cons s).2 ⟨?_, k, hk, ih (List.not_mem_of_not_mem_cons hp) hrest⟩
      by_cases hz : steps (s :: ss) = []
      · rw [hz, List.append_nil] at hl
        obtain ⟨n', hn', hdir⟩ := hg.exists_node hn
        rw [hl, hm] at hn'
        rw [← hl, hn, hdir.1 (Option.some.inj hn').symm]
      · exact ht.directory (hl ▸ hn) hz

theorem start_congr {q : Path} (h : p.lead = q.lead) : d.start p = d.start q := by
  rw [start, start, Path.isAbsolute, Path.isAbsolute, h]

theorem plain_slash (hp : ".." ∉ segments p) :
    ".." ∉ segments p ++ if endsInSlash p then ["."] else [] := by
  cases endsInSlash p <;> simpa using hp

theorem IsTree.locate (ht : d.IsTree) (hg : d.Grows d') (hn : d.node? l = some n)
    (hp : ".." ∉ segments p) (h : d'.locate p = .ok l) : d.locate p = .ok l := by
  obtain ⟨ha, h⟩ := locate_ok h
  rw [hg.start] at h
  rw [locate_admitted ha]
  exact ht.follow hg hn (plain_slash hp) h

/-- Only a path that leads back up can come to something that it did not lead to before. -/
theorem IsTree.climbs (ht : d.IsTree) (hg : d.Grows d') (hn : d.node? l = some n)
    (hmiss : d.find p = .error .notFound) (h : d'.locate p = .ok l) : ".." ∈ segments p := by
  refine Decidable.byContradiction fun hup => ?_
  rw [find_ok.2 ⟨l, ht.locate hg hn hup h, hn⟩] at hmiss
  cases hmiss

theorem locate_plain (hp : ".." ∉ segments p) (h : d.locate p = .ok l) :
    l = d.start p ++ steps (segments p) := by
  obtain ⟨-, h⟩ := locate_ok h
  rw [follow_plain (plain_slash hp) h, steps_append]
  cases endsInSlash p <;> simp [steps]

theorem slash_directory (hn : d.node? l = some .directory) (b : Bool) :
    d.follow l (if b then ["."] else []) = .ok l := by
  cases b <;> simp [Disk.follow, hn, step]

end EntityGen.Disk
