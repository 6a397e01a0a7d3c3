import EntityGen.Proofs.Disk.Plain
import EntityGen.Proofs.Text.Lines

namespace EntityGen.Path

variable {p q : Path} {l : Lead} {ps qs : List (List Char)}

def Whole (ps : List (List Char)) : Prop := ∀ x ∈ ps, '/' ∉ x

/-- Pieces that can stand after the lead without being taken for another one. -/
def Fits : Lead → List (List Char) → Prop
  | .root, _ => True
  | .here, ps => ∀ x ∈ ps.head?, x = []
  | .none, ps => ∀ x ∈ ps.head?, x ≠ ['.'] ∧ (x = [] → ps = [[]])

theorem whole_splitOn (cs : List Char) : Whole (cs.splitOn '/') := fun _ hx => Text.not_mem_piece hx

theorem whole_pieces (p : Path) : Whole p.pieces := whole_splitOn _

theorem Whole.of_append_left (h : Whole (ps ++ qs)) : Whole ps :=
  fun x hx => h x (List.mem_append_left _ hx)

theorem cut_text (cs : List Char) : (cut cs).1.text ++ (cut cs).2 = cs := by
  unfold cut
  split <;> rfl

theorem cut_intercalate (hf : Fits l ps) (hw : Whole ps) :
    cut (l.text ++ ['/'].intercalate ps) = (l, ['/'].intercalate ps) := by
  cases l with
  | root => rfl
  | here =>
      cases ps with
      | nil => rfl
      | cons x rest =>
          cases (hf x rfl : x = [])
          cases rest <;> simp [Lead.text, cut]
  | none =>
      cases ps with
      | nil => rfl
      | cons x rest =>
          obtain ⟨hdot, hnil⟩ := hf x rfl
          cases x with
          | nil =>
              cases (List.cons.inj (hnil rfl)).2
              rfl
          | cons c x =>
              -- No cut is made: the text begins neither with a slash nor with a dot on its own.
              have hc : c ≠ '/' := fun h => hw _ List.mem_cons_self (h ▸ List.mem_cons_self)
              have hx : ∀ y ys, x = y :: ys → y ≠ '/' := fun y ys he hy =>
                hw (c :: x) List.mem_cons_self (by simp [he, hy])
              simp only [Lead.text, List.nil_append, List.intercalate_cons_cons_left]
              unfold cut
              cases x with
              | nil =>
                  have hd : c ≠ '.' := fun h => hdot (by rw [h])
                  split <;> simp_all
              | cons y ys =>
                  have hy := hx y ys rfl
                  rw [List.intercalate_cons_cons_left]
                  split <;> simp_all

theorem fits_cut (cs : List Char) : Fits (cut cs).1 ((cut cs).2.splitOn '/') := by
  unfold cut
  split
  · trivial
  · simp [Fits]
  · simp [Fits, List.splitOn_cons_eq_if_modifyHead]
  next h1 h2 h3 =>
    intro x hx
    have hcs : ['/'].intercalate (cs.splitOn '/') = cs := List.intercalate_splitOn '/'
    dsimp only at hx ⊢
    generalize cs.splitOn '/' = pieces at hx hcs
    cases pieces with
    | nil => cases hx
    | cons y ys =>
        cases hx
        constructor
        · rintro rfl
          cases ys with
          | nil => exact h2 (by simpa using hcs.symm)
          | cons z zs => exact h3 _ (by simpa using hcs.symm)
        · rintro rfl
          cases ys with
          | nil => rfl
          | cons z zs => exact absurd (by simpa using hcs.symm) (h1 _)

theorem fits_pieces (p : Path) : Fits p.lead p.pieces := fits_cut _

theorem Fits.of_append_left (h : Fits l (ps ++ qs)) : Fits l ps := by
  cases ps with
  | nil => cases l <;> simp [Fits]
  | cons x rest =>
      cases l with
      | root => trivial
      | here => exact h
      | none =>
          intro y hy
          obtain ⟨hdot, hnil⟩ := h y hy
          refine ⟨hdot, fun hz => ?_⟩
          have := hnil hz
          simp_all

theorem lead_ofPieces (hf : Fits l ps) (hw : Whole ps) : (ofPieces l ps).lead = l := by
  simp only [lead, ofPieces, String.toList_ofList, cut_intercalate hf hw]

theorem pieces_ofPieces (hf : Fits l ps) (hw : Whole ps) :
    (ofPieces l ps).pieces = if ps = [] then [[]] else ps := by
  simp only [pieces, ofPieces, String.toList_ofList, cut_intercalate hf hw]
  split
  next h => rw [h]; rfl
  next h => exact List.splitOn_intercalate '/' hw h

def Lead.segments : Lead → List String
  | .here => ["."]
  | _ => []

def named (ps : List (List Char)) : List String := (ps.filter (· ≠ [])).map String.ofList

theorem named_append (ps qs : List (List Char)) : named (ps ++ qs) = named ps ++ named qs := by
  simp [named]

def Here (ss : List String) : Prop := ∀ s ∈ ss, s = "."

theorem named_idle (h : ∀ x ∈ ps, isIdle x = true) : Here (named ps) := by
  intro s hs
  obtain ⟨x, hx, rfl⟩ := List.mem_map.1 hs
  obtain ⟨hx, hne⟩ := List.mem_filter.1 hx
  have hi := h x hx
  simp only [isIdle, Bool.or_eq_true, beq_iff_eq] at hi
  rcases hi with rfl | rfl
  · simp at hne
  · rfl

theorem named_splitOn (cs : List Char) :
    named (cs.splitOn '/') = (cut cs).1.segments ++ named ((cut cs).2.splitOn '/') := by
  unfold cut
  split
  · simp [Lead.segments, List.splitOn_cons_eq_if_modifyHead, named]
  · rfl
  · simp [Lead.segments, List.splitOn_cons_eq_if_modifyHead, named]
  · rfl

theorem segments_eq (p : Path) : Disk.segments p = p.lead.segments ++ named p.pieces :=
  named_splitOn _

theorem Here.append {ss ts : List String} (h : Here ss) (h' : Here ts) : Here (ss ++ ts) := by
  intro s hs
  rcases List.mem_append.1 hs with hs | hs
  · exact h s hs
  · exact h' s hs

theorem here_lead (l : Lead) : Here l.segments := by
  cases l <;> simp [Here, Lead.segments]

theorem named_piece {x : List Char} (h : isIdle x = false) :
    named [x] = [String.ofList x] ∧ String.ofList x ≠ "." := by
  simp only [isIdle, Bool.or_eq_false_iff, beq_eq_false_iff_ne, ne_eq] at h
  refine ⟨by simp [named, h.1], fun he => h.2 ?_⟩
  have := congrArg String.toList he
  simpa using this

theorem segments_ofPieces (hf : Fits l ps) (hw : Whole ps) :
    Disk.segments (ofPieces l ps) = l.segments ++ named ps := by
  rw [segments_eq, lead_ofPieces hf hw, pieces_ofPieces hf hw]
  split
  next h => rw [h]; rfl
  · rfl

theorem cut_append {cs : List Char} (h : cs ≠ []) (r : List Char) :
    (cut (cs ++ '/' :: r)).1 = (cut cs).1 := by
  match cs with
  | '/' :: cs => rfl
  | ['.'] => rfl
  | '.' :: '/' :: cs => rfl
  | [c] =>
      unfold cut
      split <;> split <;> simp_all
  | c :: c' :: cs =>
      unfold cut
      split <;> split <;> simp_all

theorem join_toList (hp : p.text ≠ "") (hq : q.isAbsolute = false) :
    ∃ cs, ((p / q : Path).text.toList = cs ++ '/' :: q.text.toList) ∧
      (p.text.toList = cs ∨ p.text.toList = cs ++ ['/']) := by
  have hj : (p / q : Path) = p.join q := rfl
  rw [hj, join, hq]
  simp only [Bool.false_eq_true, if_false, hp, false_or]
  split
  next h =>
    obtain ⟨cs, hcs⟩ := List.getLast?_eq_some_iff.1 h
    exact ⟨cs, by simp [hcs], .inr hcs⟩
  · exact ⟨p.text.toList, by simp, .inl rfl⟩

theorem lead_join (hp : p.text ≠ "") (hq : q.isAbsolute = false) : (p / q : Path).lead = p.lead := by
  obtain ⟨cs, ht, hcs⟩ := join_toList hp hq
  simp only [lead, ht]
  rcases hcs with hcs | hcs
  · rw [hcs, cut_append]
    rintro rfl
    exact hp (String.toList_eq_nil_iff.1 hcs)
  · rw [hcs]
    cases cs with
    | nil => rfl
    | cons c cs => rw [cut_append (by simp), cut_append (by simp)]

theorem segments_join (hp : p.text ≠ "") (hq : q.isAbsolute = false) :
    Disk.segments (p / q) = Disk.segments p ++ Disk.segments q := by
  obtain ⟨cs, ht, hcs⟩ := join_toList hp hq
  have hs : ∀ p : Path, Disk.segments p = named (p.text.toList.splitOn '/') := fun _ => rfl
  have hp' : Disk.segments p = named (cs.splitOn '/') := by
    rcases hcs with hcs | hcs
    · rw [hs, hcs]
    · rw [hs, hcs, List.splitOn_append_cons_self, named_append]
      simp [named]
  rw [hp', hs, ht, List.splitOn_append_cons_self, named_append, hs]

theorem idle_suffix (ps : List (List Char)) : ∃ idle, (∀ x ∈ idle, isIdle x = true) ∧
    ps = (ps.reverse.dropWhile isIdle).reverse ++ idle := by
  refine ⟨(ps.reverse.takeWhile isIdle).reverse, fun x hx => ?_, ?_⟩
  · exact List.all_eq_true.1 List.all_takeWhile x (List.mem_reverse.1 hx)
  · rw [← List.reverse_append, List.takeWhile_append_dropWhile, List.reverse_reverse]

theorem pieces_cases (p : Path) : (p.backward = [] ∧ ∀ x ∈ p.pieces, isIdle x = true) ∨
    ∃ ps x idle, p.backward = x :: ps.reverse ∧ p.pieces = ps ++ x :: idle ∧ isIdle x = false ∧
      ∀ y ∈ idle, isIdle y = true := by
  obtain ⟨idle, hidle, hp⟩ := idle_suffix p.pieces
  have hhead := List.head?_dropWhile_not isIdle p.pieces.reverse
  rw [backward]
  generalize p.pieces.reverse.dropWhile isIdle = back at hp hhead
  cases back with
  | nil =>
      rw [List.reverse_nil, List.nil_append] at hp
      exact .inl ⟨rfl, hp ▸ hidle⟩
  | cons x before =>
      rw [List.reverse_cons, List.append_assoc, List.singleton_append] at hp
      exact .inr ⟨_, x, idle, by rw [List.reverse_reverse], hp, by simpa using hhead, hidle⟩

theorem parent?_some (h : p.parent? = some q) :
    (∃ ps idle x idle', p.pieces = ps ++ idle ++ x :: idle' ∧ (∀ x ∈ idle, isIdle x = true) ∧
      isIdle x = false ∧ (∀ x ∈ idle', isIdle x = true) ∧ q = ofPieces p.lead ps ∧
        ∀ y ∈ ps.getLast?, isIdle y = false) ∨
    p.lead = .here ∧ (∀ x ∈ p.pieces, isIdle x = true) ∧ q = ⟨""⟩ := by
  rcases p.pieces_cases with ⟨hback, hidle⟩ | ⟨before, x, idle', hback, hp, hx, hidle'⟩
  · simp only [parent?, hback, Option.ite_none_right_eq_some, Option.some.injEq] at h
    exact .inr ⟨h.1, hidle, h.2.symm⟩
  · simp only [parent?, hback, Option.some.injEq] at h
    obtain ⟨idle, hidle, hbefore⟩ := idle_suffix before
    refine .inl ⟨_, idle, x, idle', by rw [← hbefore, hp], hidle, hx, hidle', h.symm, fun y hy => ?_⟩
    have hlast := List.head?_dropWhile_not isIdle before.reverse
    rw [← List.getLast?_reverse, hy] at hlast
    simpa using hlast

theorem parent?_none (h : p.parent? = none) : p.lead ≠ .here ∧ ∀ x ∈ p.pieces, isIdle x = true := by
  rcases p.pieces_cases with ⟨hback, hidle⟩ | ⟨before, x, idle, hback, -, -, -⟩
  · simp only [parent?, hback] at h
    exact ⟨fun hl => by simp [hl] at h, hidle⟩
  · simp [parent?, hback] at h

/-- Where the parent is, the empty path if there is none. -/
def above (p : Path) : Path := p.parent?.getD ⟨""⟩

theorem above_cases (p : Path) :
    (∃ ps idle x idle', p.pieces = ps ++ idle ++ x :: idle' ∧ (∀ x ∈ idle, isIdle x = true) ∧
      isIdle x = false ∧ (∀ x ∈ idle', isIdle x = true) ∧ p.above = ofPieces p.lead ps ∧
        ∀ y ∈ ps.getLast?, isIdle y = false) ∨
    (∀ x ∈ p.pieces, isIdle x = true) ∧ p.above = ⟨""⟩ := by
  rw [above]
  cases h : p.parent? with
  | none => exact .inr ⟨(parent?_none h).2, rfl⟩
  | some q =>
      rcases parent?_some h with h | ⟨-, hidle, rfl⟩
      · exact .inl h
      · exact .inr ⟨hidle, rfl⟩

theorem segments_empty : Disk.segments ⟨""⟩ = [] := rfl

theorem segments_idle (h : ∀ x ∈ p.pieces, isIdle x = true) : Here (Disk.segments p) := by
  rw [segments_eq]
  exact (here_lead _).append (named_idle h)

theorem segments_above (p : Path) : ∃ here, Here here ∧
    (p.above = ⟨""⟩ ∧ Disk.segments p = here ∨ ∃ s here', s ≠ "." ∧ Here here' ∧
      Disk.segments p = Disk.segments p.above ++ here ++ s :: here') := by
  rcases p.above_cases with ⟨ps, idle, x, idle', hp, hidle, hx, hidle', ha, -⟩ | ⟨hidle, ha⟩
  · have hf := fits_pieces p
    have hw := whole_pieces p
    rw [hp, List.append_assoc] at hf hw
    obtain ⟨hn, hne⟩ := named_piece hx
    refine ⟨named idle, named_idle hidle, .inr ⟨_, named idle', hne, named_idle hidle', ?_⟩⟩
    rw [ha, segments_ofPieces hf.of_append_left hw.of_append_left, segments_eq, hp,
      ← List.singleton_append, named_append, named_append, named_append, hn]
    simp
  · exact ⟨_, segments_idle hidle, .inl ⟨ha, rfl⟩⟩

theorem segments_above_subset (p : Path) :
    ∀ s ∈ Disk.segments p.above, s ∈ (Disk.segments p).dropLast := by
  intro s hs
  obtain ⟨here, -, ⟨ha, -⟩ | ⟨t, here', -, -, hseg⟩⟩ := p.segments_above
  · rw [ha, segments_empty] at hs
    cases hs
  · rw [hseg, List.dropLast_append_of_ne_nil (List.cons_ne_nil t here'), List.append_assoc]
    exact List.mem_append_left _ hs

theorem lead_above (h : p.above.text ≠ "") : p.above.lead = p.lead := by
  rcases p.above_cases with ⟨ps, idle, x, idle', hp, -, -, -, ha, -⟩ | ⟨-, ha⟩
  · have hf := fits_pieces p
    have hw := whole_pieces p
    rw [hp, List.append_assoc] at hf hw
    rw [ha, lead_ofPieces hf.of_append_left hw.of_append_left]
  · rw [ha] at h
    exact absurd rfl h

def ofSegment (s : String) : Component := if s = ".." then .up else .name s

theorem ofSegment_injective {s t : String} (h : ofSegment s = ofSegment t) : s = t := by
  simp only [ofSegment] at h
  split at h <;> split at h <;> simp_all

theorem filterMap_component (ps : List (List Char)) :
    ps.filterMap component? = (Disk.steps (named ps)).map ofSegment := by
  induction ps with
  | nil => rfl
  | cons x ps ih =>
      rw [← List.singleton_append, named_append, Disk.steps_append, List.map_append, ← ih,
        List.filterMap_append]
      congr 1
      cases hx : isIdle x with
      | true =>
          have hidle : Here (named [x]) := named_idle (by simpa using hx)
          rw [Disk.steps_of_here hidle]
          simp [component?, hx]
      | false =>
          obtain ⟨hn, hne⟩ := named_piece hx
          have hdots : x = ['.', '.'] ↔ String.ofList x = ".." :=
            ⟨fun h => by rw [h], fun h => by simpa using congrArg String.toList h⟩
          rw [hn, List.filterMap_cons, component?, hx]
          by_cases hd : x = ['.', '.']
          · simp [Disk.steps, ofSegment, hd]
          · simp [Disk.steps, ofSegment, hne, hd, mt hdots.2 hd]

theorem components_eq (p : Path) :
    p.components = p.lead.components ++ (Disk.steps (Disk.segments p)).map ofSegment := by
  rw [components, filterMap_component, segments_eq, Disk.steps_append,
    Disk.steps_of_here (here_lead _), List.nil_append]

/-- Equal spelling: the same lead, and the same segments besides those that stay. -/
theorem equiv_iff_steps : p ≈ q ↔
    p.lead = q.lead ∧ Disk.steps (Disk.segments p) = Disk.steps (Disk.segments q) := by
  rw [equiv_iff, components_eq, components_eq]
  constructor
  · intro h
    have hno : ∀ (ss : List String) (c : Component), c = .root ∨ c = .here →
        c ∉ ss.map ofSegment := by
      rintro ss c hc hm
      obtain ⟨s, -, rfl⟩ := List.mem_map.1 hm
      simp only [ofSegment] at hc
      split at hc <;> simp at hc
    have hinj : ∀ {ss ts : List String}, ss.map ofSegment = ts.map ofSegment ↔ ss = ts :=
      List.map_inj_right fun _ _ => ofSegment_injective
    cases hp : p.lead <;> cases hq : q.lead <;> rw [hp, hq] at h <;>
      simp only [Lead.components, List.singleton_append, List.nil_append, List.cons.injEq,
        reduceCtorEq, false_and, true_and] at h
    all_goals
      first
      | exact ⟨rfl, hinj.1 h⟩
      | exact absurd (h ▸ List.mem_cons_self) (hno _ _ (by simp))
  · rintro ⟨hl, hs⟩
    rw [hl, hs]

theorem intercalate_begins (ps qs : List (List Char)) :
    ['/'].intercalate ps <+: ['/'].intercalate (ps ++ qs) := by
  induction ps with
  | nil => simp
  | cons x ps ih =>
      cases ps with
      | nil =>
          cases qs with
          | nil => simp
          | cons y qs => simp
      | cons y ps =>
          simpa [List.intercalate_cons_cons] using ih

theorem toList_eq (p : Path) : p.text.toList = p.lead.text ++ ['/'].intercalate p.pieces := by
  rw [pieces, List.intercalate_splitOn, lead, cut_text]

theorem infix_intercalate {x : List Char} (h : x ∈ ps) : x <:+: ['/'].intercalate ps := by
  induction ps with
  | nil => cases h
  | cons y ps ih =>
      cases ps with
      | nil => simp_all
      | cons z ps =>
          rw [List.intercalate_cons_cons]
          rcases List.mem_cons.1 h with rfl | h
          · exact (List.prefix_append _ _).isInfix.trans (List.prefix_append _ _).isInfix
          · exact (ih h).trans (List.suffix_append _ _).isInfix

theorem piece_subset {x : List Char} (h : x ∈ p.pieces) : x ⊆ p.text.toList := by
  rw [toList_eq]
  exact List.Subset.trans (infix_intercalate h).subset (List.subset_append_right _ _)

theorem above_begins (p : Path) : p.above.text.toList <+: p.text.toList := by
  rcases p.above_cases with ⟨ps, idle, x, idle', hp, -, -, -, ha, -⟩ | ⟨-, ha⟩
  · rw [ha, ofPieces, String.toList_ofList, toList_eq p, hp, List.append_assoc]
    exact (List.prefix_append_right_inj _).2 (intercalate_begins _ _)
  · rw [ha]
    exact List.nil_prefix

theorem admit_above (h : Disk.admit? p = none) (hne : p.above.text ≠ "") :
    Disk.admit? p.above = none := by
  have hbegins := p.above_begins
  obtain ⟨hnul, -, hlong⟩ := Disk.admitted_iff.1 h
  exact Disk.admitted_iff.2 ⟨fun hm => hnul (hbegins.subset hm), hne,
    Nat.le_trans (Text.size_within hbegins.isInfix) hlong⟩

end EntityGen.Path
