import EntityGen.Proofs.Extension

namespace EntityGen.Path

variable {p q r o : Path} {ext : String} {x y : List Char}

theorem ofPieces_pieces (p : Path) : ofPieces p.lead p.pieces = p := by
  rw [ofPieces, ← toList_eq, String.ofList_toList]

theorem eq_of_pieces (hl : p.lead = q.lead) (hp : p.pieces = q.pieces) : p = q := by
  rw [← ofPieces_pieces p, ← ofPieces_pieces q, hl, hp]

/-- Names and steps up with one slash between them, and nothing else. -/
structure Tidy (p : Path) : Prop where
  lead : p.lead = .none
  pieces : ∀ x ∈ p.pieces, isIdle x = false

instance (p : Path) : Decidable p.Tidy :=
  decidable_of_iff (p.lead = .none ∧ ∀ x ∈ p.pieces, isIdle x = false)
    ⟨fun h => ⟨h.1, h.2⟩, fun h => ⟨h.lead, h.pieces⟩⟩

theorem Tidy.concat (h : p.Tidy) : ∃ ps x, p.pieces = ps ++ [x] ∧ isIdle x = false := by
  have hne : p.pieces ≠ [] := List.splitOn_ne_nil _ _
  refine ⟨p.pieces.dropLast, p.pieces.getLast hne, (List.dropLast_concat_getLast hne).symm, ?_⟩
  exact h.pieces _ (List.getLast_mem hne)

theorem Tidy.text_ne (h : p.Tidy) : p.text ≠ "" := by
  intro ht
  have hempty : p = ⟨""⟩ := congrArg Path.mk ht
  subst hempty
  exact absurd (h.pieces [] (by decide)) (by decide)

theorem cut_slash (cs ds : List Char) :
    cut (cs ++ '/' :: ds) = ((cut (cs ++ ['/'])).1, (cut (cs ++ ['/'])).2 ++ ds) := by
  by_cases hcs : cs = []
  · rw [hcs]
    rfl
  · have hlead : (cut (cs ++ '/' :: ds)).1 = (cut (cs ++ ['/'])).1 := (cut_append hcs ds).trans (cut_append hcs []).symm
    have htext : (cut (cs ++ ['/'])).1.text ++ (cut (cs ++ '/' :: ds)).2 =
        (cut (cs ++ ['/'])).1.text ++ ((cut (cs ++ ['/'])).2 ++ ds) := by
      rw [← hlead, cut_text, ← List.append_assoc, hlead, cut_text]
      simp
    exact Prod.ext hlead (List.append_cancel_left htext)

theorem pieces_of_lead (h : p.lead = .none) : p.pieces = p.text.toList.splitOn '/' := by
  have htext : Lead.none.text ++ (cut p.text.toList).2 = p.text.toList := by
    rw [← h]
    exact cut_text _
  exact congrArg (List.splitOn '/') htext

theorem join_relative (hr : r.text ≠ "") : ∃ cs, ∀ q : Path, q.isAbsolute = false →
    (r / q).text.toList = cs ++ '/' :: q.text.toList := by
  have hjoin : ∀ q : Path, q.isAbsolute = false → r / q =
      if r.text.toList.getLast? = some '/' then ⟨r.text ++ q.text⟩ else ⟨r.text ++ "/" ++ q.text⟩ := by
    intro q hq
    have hdef : r / q = r.join q := rfl
    simp only [hdef, join, hq, Bool.false_eq_true, if_false, hr, false_or]
  by_cases hlast : r.text.toList.getLast? = some '/'
  · obtain ⟨cs, hcs⟩ := List.getLast?_eq_some_iff.1 hlast
    exact ⟨cs, fun q hq => by rw [hjoin q hq, if_pos hlast]; simp [hcs]⟩
  · exact ⟨r.text.toList, fun q hq => by rw [hjoin q hq, if_neg hlast]; simp⟩

theorem join_pieces (r : Path) : ∃ l base, ∀ q : Path, q.lead = .none →
    (r / q).lead = l ∧ (r / q).pieces = base ++ q.pieces := by
  have habs : ∀ q : Path, q.lead = .none → q.isAbsolute = false := fun q hq => by simp [isAbsolute, hq]
  by_cases hr : r.text = ""
  · refine ⟨.none, [], fun q hq => ?_⟩
    have hjoin : r / q = q := by
      have hdef : r / q = r.join q := rfl
      rw [hdef, join, habs q hq, if_neg Bool.false_ne_true, if_pos (.inl hr), hr, String.empty_append]
    rw [hjoin]
    exact ⟨hq, rfl⟩
  · obtain ⟨cs, hcs⟩ := join_relative hr
    have hpieces : ∀ q : Path, q.lead = .none →
        (r / q).pieces = ((cut (cs ++ ['/'])).2 ++ q.text.toList).splitOn '/' := by
      intro q hq
      rw [pieces, hcs q (habs q hq), cut_slash]
    have hlead : ∀ q : Path, q.lead = .none → (r / q).lead = (cut (cs ++ ['/'])).1 := by
      intro q hq
      rw [lead, hcs q (habs q hq), cut_slash]
    have htext := cut_text (cs ++ ['/'])
    rcases List.eq_nil_or_concat (cut (cs ++ ['/'])).2 with hnil | ⟨ds, c, hconcat⟩
    · refine ⟨_, [], fun q hq => ⟨hlead q hq, ?_⟩⟩
      rw [hpieces q hq, hnil, List.nil_append, pieces_of_lead hq, List.nil_append]
    · rw [hconcat, List.concat_eq_append, ← List.append_assoc] at htext
      have hc : c = '/' := by simpa using congrArg List.getLast? htext
      refine ⟨_, ds.splitOn '/', fun q hq => ⟨hlead q hq, ?_⟩⟩
      rw [hpieces q hq, hconcat, hc, List.concat_eq_append, List.append_assoc, List.singleton_append,
        List.splitOn_append_cons_self, pieces_of_lead hq]

theorem mirror_pieces (r : Path) : ∃ l base, ∀ q : Path, q.Tidy → ∀ ext o, (r / q).withExtension? ext = some o →
    o.lead = l ∧ ∃ ms, o.pieces = base ++ ms ∧ ∀ x ∈ ms, isIdle x = false := by
  obtain ⟨l, base, hjoin⟩ := join_pieces r
  refine ⟨l, base, fun q hq ext o h => ?_⟩
  obtain ⟨hlead, hpieces⟩ := hjoin q hq.lead
  obtain ⟨ps, x, hps, hx⟩ := hq.concat
  have hlast : (r / q).pieces = (base ++ ps) ++ [x] := by rw [hpieces, hps, List.append_assoc]
  obtain ⟨o', ho, hl, hms⟩ := withExtension_last hlast hx (withExtension_some h).1
  cases ho.symm.trans h
  refine ⟨hl.trans hlead, ps ++ [renamed x ext], by rw [hms, List.append_assoc], fun y hy => ?_⟩
  rcases List.mem_append.1 hy with hy | hy
  · exact hq.pieces y (hps ▸ List.mem_append_left _ hy)
  · rw [List.mem_singleton.1 hy]
    exact isIdle_renamed hx ext

theorem component?_injective (hx : isIdle x = false) (hy : isIdle y = false) (h : component? x = component? y) :
    x = y := by
  rw [component?_counts hx, component?_counts hy, Option.some.injEq] at h
  split at h <;> split at h
  next hx hy => rw [hx, hy]
  · cases h
  · cases h
  · exact String.ofList_injective (Component.name.inj h)

theorem filterMap_counts_injective {ms ms' : List (List Char)} (hms : ∀ x ∈ ms, isIdle x = false)
    (hms' : ∀ x ∈ ms', isIdle x = false) (h : ms.filterMap component? = ms'.filterMap component?) : ms = ms' := by
  induction ms generalizing ms' with
  | nil =>
      cases ms' with
      | nil => rfl
      | cons y ms' =>
          rw [List.filterMap_cons_some (component?_counts (hms' y List.mem_cons_self))] at h
          cases h
  | cons x ms ih =>
      obtain ⟨hx, hms⟩ := List.forall_mem_cons.1 hms
      cases ms' with
      | nil =>
          rw [List.filterMap_cons_some (component?_counts hx)] at h
          cases h
      | cons y ms' =>
          obtain ⟨hy, hms'⟩ := List.forall_mem_cons.1 hms'
          rw [List.filterMap_cons_some (component?_counts hx), List.filterMap_cons_some (component?_counts hy)] at h
          obtain ⟨hxy, hrest⟩ := List.cons.inj h
          rw [component?_injective hx hy (by rw [component?_counts hx, component?_counts hy, hxy]), ih hms hms' hrest]

theorem join_injective {q' : Path} (hq : q.Tidy) (hq' : q'.Tidy) (h : r / q ≈ r / q') : q = q' := by
  obtain ⟨l, base, hjoin⟩ := join_pieces r
  rw [equiv_iff, components, components, (hjoin q hq.lead).1, (hjoin q' hq'.lead).1, (hjoin q hq.lead).2,
    (hjoin q' hq'.lead).2, List.filterMap_append, List.filterMap_append] at h
  have hpieces := filterMap_counts_injective hq.pieces hq'.pieces (List.append_cancel_left (List.append_cancel_left h))
  exact eq_of_pieces (hq.lead.trans hq'.lead.symm) hpieces

/-- Tidy paths below one directory that have equal components once their extension is changed are spelled
alike then. -/
theorem mirror_spelled {q' o' : Path} (hq : q.Tidy) (hq' : q'.Tidy) (h : (r / q).withExtension? ext = some o)
    (h' : (r / q').withExtension? ext = some o') (he : o ≈ o') : o = o' := by
  obtain ⟨l, base, hmirror⟩ := mirror_pieces r
  obtain ⟨hl, ms, hms, hcount⟩ := hmirror q hq ext o h
  obtain ⟨hl', ms', hms', hcount'⟩ := hmirror q' hq' ext o' h'
  have hcomponents : ms.filterMap component? = ms'.filterMap component? := by
    have := equiv_iff.1 he
    rw [components, components, hl, hl', hms, hms', List.filterMap_append, List.filterMap_append] at this
    exact List.append_cancel_left (List.append_cancel_left this)
  exact eq_of_pieces (hl.trans hl'.symm) (by rw [hms, hms', filterMap_counts_injective hcount hcount' hcomponents])

end EntityGen.Path
