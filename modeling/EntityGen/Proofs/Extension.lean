import EntityGen.Proofs.Spelling
import Mathlib.Data.List.TakeWhile

namespace EntityGen.Path

variable {p o : Path} {ext : String} {x y stem : List Char} {l : Lead} {ps idle : List (List Char)}

theorem component?_counts (hx : isIdle x = false) :
    component? x = some (if x = ['.', '.'] then .up else .name (.ofList x)) := by
  rw [component?, hx, if_neg Bool.false_ne_true]
  split <;> rfl

theorem ne_nil_of_counts (hx : isIdle x = false) : x ≠ [] := by
  rintro rfl
  cases hx

theorem backward_eq (hp : p.pieces = ps ++ x :: idle) (hx : isIdle x = false)
    (hidle : ∀ y ∈ idle, isIdle y = true) : p.backward = x :: ps.reverse := by
  rw [backward, hp, List.reverse_append, List.reverse_cons, List.append_assoc, List.dropWhile_append_of_pos,
    List.singleton_append, List.dropWhile_cons_of_neg]
  · simp [hx]
  · exact fun y hy => hidle y (List.mem_reverse.1 hy)

theorem fileName?_of_idle (h : ∀ x ∈ p.pieces, isIdle x = true) : p.fileName? = none := by
  have hnone : p.pieces.filterMap component? = [] :=
    List.filterMap_eq_nil_iff.2 fun x hx => by rw [component?, if_pos (h x hx)]
  rw [fileName?, components, hnone, List.append_nil]
  cases p.lead <;> rfl

theorem fileName?_eq (hp : p.pieces = ps ++ x :: idle) (hx : isIdle x = false)
    (hidle : ∀ y ∈ idle, isIdle y = true) :
    p.fileName? = if x = ['.', '.'] then none else some (.ofList x) := by
  have hnone : idle.filterMap component? = [] :=
    List.filterMap_eq_nil_iff.2 fun y hy => by rw [component?, if_pos (hidle y hy)]
  rw [fileName?, components, hp, List.filterMap_append, List.filterMap_cons_some (component?_counts hx), hnone,
    ← List.append_assoc, List.getLast?_concat]
  by_cases hup : x = ['.', '.']
  · rw [if_pos hup, if_pos hup]
  · rw [if_neg hup, if_neg hup]

theorem fileName?_some {n : String} (h : p.fileName? = some n) : ∃ ps idle, p.pieces = ps ++ n.toList :: idle ∧
    isIdle n.toList = false ∧ n.toList ≠ ['.', '.'] ∧ ∀ y ∈ idle, isIdle y = true := by
  rcases p.pieces_cases with ⟨-, hidle⟩ | ⟨ps, x, idle, -, hp, hx, hidle⟩
  · rw [fileName?_of_idle hidle] at h
    cases h
  · rw [fileName?_eq hp hx hidle] at h
    split at h
    · cases h
    next hne =>
      cases h
      exact ⟨ps, idle, by simpa using hp, by simpa using hx, by simpa using hne, hidle⟩

theorem fileName?_of_segments {s : String} (h : (Disk.segments p).getLast? = some s) (hs : Disk.isDots s = false) :
    p.fileName? = some s := by
  obtain ⟨init, hinit⟩ := List.getLast?_eq_some_iff.1 h
  simp only [Disk.isDots, Bool.or_eq_false_iff, beq_eq_false_iff_ne, ne_eq] at hs
  have hstep : Disk.steps [s] = [s] := by simp [Disk.steps, hs.1]
  have hname : ofSegment s = .name s := if_neg hs.2
  rw [fileName?, components_eq, hinit, Disk.steps_append, hstep, List.map_append, List.map_singleton, hname,
    ← List.append_assoc, List.getLast?_concat]

theorem extension?_name {n : String} (h : o.fileName? = some n) :
    o.extension? = (splitExtension n.toList).2.map String.ofList := by
  rw [extension?, h, Option.bind_some]

theorem splitExtension_stem {name : List Char} (h : name ≠ []) :
    (splitExtension name).1 ≠ [] ∧ ∀ c ∈ (splitExtension name).1, c ∈ name := by
  simp only [splitExtension]
  split
  next x c stem hd =>
    refine ⟨by simp, fun a ha => ?_⟩
    have hmem : a ∈ name.reverse.dropWhile (· ≠ '.') := by
      rw [hd]
      exact List.mem_cons_of_mem _ (List.mem_reverse.1 ha)
    exact List.mem_reverse.1 ((List.dropWhile_sublist _).subset hmem)
  · exact ⟨h, fun _ ha => ha⟩

theorem slash_extended (he : '/' ∉ ext.toList) (hs : '/' ∉ stem) : '/' ∉ extended stem ext := by
  simp only [extended]
  split
  · exact hs
  · simp [he, hs]

theorem slash_stem (hx : isIdle x = false) (hs : '/' ∉ x) (hext : '/' ∉ ext.toList) :
    '/' ∉ extended (splitExtension x).1 ext :=
  slash_extended hext fun hc => hs ((splitExtension_stem (ne_nil_of_counts hx)).2 _ hc)

theorem withExtension_none (h : p.withExtension? ext = none) : '/' ∈ ext.toList := by
  refine Decidable.byContradiction fun hno => ?_
  rw [withExtension?, if_neg hno] at h
  split at h
  · cases h
  · split at h
    · cases h
    · dsimp only at h
      split at h <;> cases h

/-- What comes after the last dot of an extension. -/
def lastPart (ext : String) : String := .ofList (ext.toList.reverse.takeWhile (· ≠ '.')).reverse

theorem splitExtension_extended (hs : stem ≠ []) (he : ext ≠ "") :
    (splitExtension (extended stem ext)).2 = some (lastPart ext).toList := by
  have hrev : (extended stem ext).reverse = ext.toList.reverse ++ '.' :: stem.reverse := by
    rw [extended, if_neg he, List.reverse_append, List.reverse_cons, List.append_assoc, List.singleton_append]
  obtain ⟨c, cs, hstem⟩ := List.exists_cons_of_ne_nil (mt List.reverse_eq_nil_iff.1 hs)
  have htake : (ext.toList.reverse ++ '.' :: stem.reverse).takeWhile (· ≠ '.') =
      ext.toList.reverse.takeWhile (· ≠ '.') := by
    induction ext.toList.reverse with
    | nil => simp
    | cons d ds ih => by_cases hd : d = '.' <;> simp_all
  have hdrop : ∃ a b ds, (ext.toList.reverse ++ '.' :: stem.reverse).dropWhile (· ≠ '.') = a :: b :: ds := by
    induction ext.toList.reverse with
    | nil => exact ⟨'.', c, cs, by simp [hstem]⟩
    | cons d ds ih =>
        by_cases hd : d = '.'
        · cases ds <;> simp [hd]
        · simpa [hd] using ih
  obtain ⟨a, b, ds, hdrop⟩ := hdrop
  rw [splitExtension, hrev, hdrop, htake, lastPart, String.toList_ofList]

theorem splitExtension_plain (h : '.' ∉ x) : splitExtension x = (x, none) := by
  have hdrop : x.reverse.dropWhile (· ≠ '.') = [] :=
    List.dropWhile_eq_nil_iff.2 fun c hc => decide_eq_true fun he : c = '.' => h (he ▸ List.mem_reverse.1 hc)
  rw [splitExtension, hdrop]

theorem splitExtension_some {e : List Char} (h : (splitExtension x).2 = some e) :
    x = (splitExtension x).1 ++ '.' :: e := by
  have hsplit := List.takeWhile_append_dropWhile (p := (· ≠ '.')) (l := x.reverse)
  rw [splitExtension] at h ⊢
  split at h
  next dot c stem hdrop =>
    have hdot : dot = '.' := by
      have hhead := List.head?_dropWhile_not (· ≠ '.') x.reverse
      rw [hdrop] at hhead
      simpa using hhead
    rw [hdrop, hdot] at hsplit
    cases h
    have hrev := congrArg List.reverse hsplit
    rw [List.reverse_reverse] at hrev
    simpa using hrev.symm
  · cases h

theorem lastPart_of_plain (h : '.' ∉ ext.toList) : lastPart ext = ext := by
  have htake : ext.toList.reverse.takeWhile (· ≠ '.') = ext.toList.reverse :=
    List.takeWhile_eq_self_iff.2 fun c hc => decide_eq_true fun he : c = '.' => h (he ▸ List.mem_reverse.1 hc)
  rw [lastPart, htake, List.reverse_reverse, String.ofList_toList]

/-- What another extension makes of a path. A name of which only a dot is left becomes two. -/
inductive Renamed (p : Path) (ext : String) : Path → Prop
  | nameless (hidle : ∀ x ∈ p.pieces, isIdle x = true) : Renamed p ext p
  | up {ps idle : List (List Char)} (hp : p.pieces = ps ++ ['.', '.'] :: idle)
      (hidle : ∀ y ∈ idle, isIdle y = true) : Renamed p ext p
  | lost {ps : List (List Char)} {x : List Char} (hp : p.pieces = ps ++ [x]) (hx : isIdle x = false)
      (hstem : (splitExtension x).1 = ['.']) : Renamed p ext (ofPieces p.lead (ps ++ [['.', '.']]))
  | named {ps idle : List (List Char)} {x : List Char} (hp : p.pieces = ps ++ x :: idle) (hx : isIdle x = false)
      (hidle : ∀ y ∈ idle, isIdle y = true) (hstem : (splitExtension x).1 = ['.'] → idle ≠ []) :
      Renamed p ext (ofPieces p.lead (ps ++ [extended (splitExtension x).1 ext]))

theorem withExtension_some (h : p.withExtension? ext = some o) : '/' ∉ ext.toList ∧ p.Renamed ext o := by
  rw [withExtension?] at h
  split at h
  · cases h
  next hext =>
    refine ⟨hext, ?_⟩
    rcases p.pieces_cases with ⟨hback, hidle⟩ | ⟨ps, x, idle, hback, hp, hx, hidle⟩
    · rw [hback] at h
      cases h
      exact .nameless hidle
    · -- Only idle pieces can come between the name and the end.
      have hlast : p.pieces.getLast? = some x ↔ idle = [] := by
        rw [hp, List.getLast?_append, List.getLast?_cons, Option.some_or, Option.some.injEq]
        refine ⟨fun he => Decidable.byContradiction fun hne => ?_, fun he => by rw [he]; rfl⟩
        rw [List.getLast?_eq_some_getLast hne, Option.getD_some] at he
        have hlast := hidle _ (List.getLast_mem hne)
        rw [he, hx] at hlast
        cases hlast
      rw [hback] at h
      simp only [List.reverse_reverse, hlast] at h
      split at h
      next hup =>
        cases h
        exact .up (hup ▸ hp) hidle
      next =>
        split at h
        next hstem =>
          obtain ⟨hstem, rfl⟩ := hstem
          cases h
          exact .lost hp hx hstem
        next hstem =>
          cases h
          exact .named hp hx hidle fun hs he => hstem ⟨hs, he⟩

theorem fits_replace (hf : Fits l (ps ++ x :: idle)) (hx : isIdle x = false) (hy : y ≠ []) :
    Fits l (ps ++ [y]) ∨ l = .none ∧ ps ++ [y] = [['.']] := by
  cases l with
  | root => exact .inl trivial
  | here =>
      cases ps with
      | nil =>
          cases (hf x rfl : x = [])
          cases hx
      | cons z zs => exact .inl hf
  | none =>
      cases ps with
      | nil =>
          by_cases hd : y = ['.']
          · rw [hd]
            exact .inr ⟨rfl, rfl⟩
          · refine .inl fun w hw => ?_
            cases hw
            exact ⟨hd, fun h => absurd h hy⟩
      | cons z zs =>
          refine .inl fun w hw => ?_
          obtain ⟨hdot, hnil⟩ := hf w hw
          exact ⟨hdot, fun h => by simpa using hnil h⟩

theorem extended_ne (ext : String) (h : stem ≠ []) : extended stem ext ≠ [] := by
  rw [extended]
  split
  · exact h
  · simp

theorem whole_replace (hp : p.pieces = ps ++ x :: idle) (hslash : '/' ∉ y) : Whole (ps ++ [y]) := by
  intro z hz
  rcases List.mem_append.1 hz with hz | hz
  · exact whole_pieces p z (hp ▸ List.mem_append_left _ hz)
  · rw [List.mem_singleton.1 hz]
    exact hslash

theorem segments_replaced (hp : p.pieces = ps ++ x :: idle) (hx : isIdle x = false)
    (hidle : ∀ y ∈ idle, isIdle y = true) (hy : y ≠ []) (hslash : '/' ∉ y) :
    ∃ ss s t here, Disk.segments p = ss ++ s :: here ∧ s ≠ "." ∧ Here here ∧
      (ofPieces p.lead (ps ++ [y]) = ⟨"."⟩ ∨ (ofPieces p.lead (ps ++ [y])).lead = p.lead ∧
        Disk.segments (ofPieces p.lead (ps ++ [y])) = ss ++ [t]) := by
  obtain ⟨hn, hdot⟩ := named_piece hx
  have hsegments : Disk.segments p = (p.lead.segments ++ named ps) ++ String.ofList x :: named idle := by
    rw [segments_eq, hp, ← List.singleton_append, named_append, named_append, hn]
    simp
  have hw := whole_replace hp hslash
  have hname : named (ps ++ [y]) = named ps ++ [String.ofList y] := by
    rw [named_append]
    simp [named, hy]
  refine ⟨_, _, String.ofList y, _, hsegments, hdot, named_idle hidle, ?_⟩
  rcases fits_replace (hp ▸ fits_pieces p) hx hy with hf | ⟨hl, hlone⟩
  · refine .inr ⟨lead_ofPieces hf hw, ?_⟩
    rw [segments_ofPieces hf hw, hname, List.append_assoc]
  · rw [hl, hlone]
    exact .inl rfl

theorem withExtension_segments (h : p.withExtension? ext = some o) : o = p ∨
    ∃ ss s t here, Disk.segments p = ss ++ s :: here ∧ s ≠ "." ∧ Here here ∧
      (o = ⟨"."⟩ ∨ o.lead = p.lead ∧ Disk.segments o = ss ++ [t]) := by
  obtain ⟨hext, hr⟩ := withExtension_some h
  cases hr with
  | nameless _ => exact .inl rfl
  | up _ _ => exact .inl rfl
  | lost hp hx _ => exact .inr (segments_replaced hp hx (by simp) (by simp) (by decide))
  | @named ps idle x hp hx hidle _ =>
      have hstem := (splitExtension_stem (ne_nil_of_counts hx)).1
      have hslash := slash_stem hx (whole_pieces p x (by simp [hp])) hext
      exact .inr (segments_replaced hp hx hidle (extended_ne ext hstem) hslash)

theorem replaced (hp : p.pieces = ps ++ x :: idle) (hx : isIdle x = false) (hy : isIdle y = false)
    (hslash : '/' ∉ y) :
    (ofPieces p.lead (ps ++ [y])).lead = p.lead ∧ (ofPieces p.lead (ps ++ [y])).pieces = ps ++ [y] := by
  have hw := whole_replace hp hslash
  have hf : Fits p.lead (ps ++ [y]) := by
    rcases fits_replace (hp ▸ fits_pieces p) hx (ne_nil_of_counts hy) with hf | ⟨-, hdot⟩
    · exact hf
    · have : y = ['.'] := by
        have := congrArg List.getLast? hdot
        simpa using this
      rw [this] at hy
      cases hy
  refine ⟨lead_ofPieces hf hw, ?_⟩
  rw [pieces_ofPieces hf hw, if_neg (by simp)]

theorem isIdle_extended (hs : stem ≠ []) (he : ext ≠ "" ∨ stem ≠ ['.']) : isIdle (extended stem ext) = false := by
  rw [extended, isIdle]
  split
  next hext =>
    have hdot := he.resolve_left (not_not_intro hext)
    simp [hs, hdot]
  next =>
    cases stem with
    | nil => exact absurd rfl hs
    | cons c cs => cases cs <;> simp

/-- What the last piece becomes: it is cut at its last dot, and if that leaves a dot, there are two. -/
def renamed (x : List Char) (ext : String) : List Char :=
  if (splitExtension x).1 = ['.'] then ['.', '.'] else extended (splitExtension x).1 ext

theorem isIdle_renamed (hx : isIdle x = false) (ext : String) : isIdle (renamed x ext) = false := by
  rw [renamed]
  split
  · rfl
  next hstem => exact isIdle_extended (splitExtension_stem (ne_nil_of_counts hx)).1 (.inr hstem)

theorem withExtension_last (hp : p.pieces = ps ++ [x]) (hx : isIdle x = false) (hext : '/' ∉ ext.toList) :
    ∃ o, p.withExtension? ext = some o ∧ o.lead = p.lead ∧ o.pieces = ps ++ [renamed x ext] := by
  have hlast : p.pieces.getLast? = some x := by rw [hp, List.getLast?_concat]
  have hy := isIdle_renamed hx ext
  rw [withExtension?, if_neg hext, backward_eq hp hx (by simp)]
  simp only [List.reverse_reverse, hlast, and_true]
  by_cases hup : x = ['.', '.']
  · have hkeep : renamed x ext = x := by
      rw [hup]
      rfl
    exact ⟨p, if_pos hup, rfl, by rw [hkeep, hp]⟩
  · rw [if_neg hup]
    rw [renamed] at hy ⊢
    by_cases hstem : (splitExtension x).1 = ['.']
    · rw [if_pos hstem, if_pos hstem]
      exact ⟨_, rfl, replaced hp hx rfl (by decide)⟩
    · rw [if_neg hstem] at hy
      rw [if_neg hstem, if_neg hstem]
      exact ⟨_, rfl, replaced hp hx hy (slash_stem hx (whole_pieces p x (by simp [hp])) hext)⟩

/-- The extension of a new name is what comes after the last dot of the one that was asked for. A name can
be lost, and has no extension then. -/
theorem withExtension_extension (h : p.withExtension? ext = some o) (he : ext ≠ "") :
    o.fileName? = none ∨ o.extension? = some (lastPart ext) := by
  obtain ⟨hext, hr⟩ := withExtension_some h
  cases hr with
  | nameless hidle => exact .inl (fileName?_of_idle hidle)
  | up hp hidle => exact .inl (by rw [fileName?_eq hp rfl hidle, if_pos rfl])
  | lost hp hx _ =>
      have hup : isIdle ['.', '.'] = false := rfl
      obtain ⟨-, hpieces⟩ := replaced hp hx hup (by decide)
      exact .inl (by rw [fileName?_eq hpieces hup (by simp), if_pos rfl])
  | @named ps idle x hp hx _ _ =>
      have hstem := (splitExtension_stem (ne_nil_of_counts hx)).1
      have hy := isIdle_extended hstem (.inl he)
      obtain ⟨-, hpieces⟩ := replaced hp hx hy (slash_stem hx (whole_pieces p x (by simp [hp])) hext)
      have hname := fileName?_eq hpieces hy (by simp)
      split at hname
      · exact .inl hname
      · refine .inr ?_
        rw [extension?_name hname, String.toList_ofList, splitExtension_extended hstem he, Option.map_some,
          String.ofList_toList]

theorem withExtension_none_left {n : String} (h : p.withExtension? "" = some o) (hn : p.fileName? = some n)
    (hdot : '.' ∉ (splitExtension n.toList).1) : o.extension? = none := by
  obtain ⟨ps', idle', hp', hn', hup, hidle'⟩ := fileName?_some hn
  have hback := backward_eq hp' hn' hidle'
  obtain ⟨hext, hr⟩ := withExtension_some h
  cases hr with
  | nameless hidle =>
      rw [fileName?_of_idle hidle] at hn
      cases hn
  | up hp hidle =>
      obtain ⟨he, -⟩ := List.cons.inj ((backward_eq hp rfl hidle).symm.trans hback)
      exact absurd he.symm hup
  | lost hp hx hstem =>
      obtain ⟨rfl, -⟩ := List.cons.inj ((backward_eq hp hx (by simp)).symm.trans hback)
      rw [hstem] at hdot
      exact absurd List.mem_cons_self hdot
  | named hp hx hidle _ =>
      obtain ⟨rfl, -⟩ := List.cons.inj ((backward_eq hp hx hidle).symm.trans hback)
      have hstem := (splitExtension_stem (ne_nil_of_counts hx)).1
      have hy : isIdle (extended (splitExtension n.toList).1 "") = false :=
        isIdle_extended hstem (.inr fun hs => hdot (hs ▸ List.mem_cons_self))
      obtain ⟨-, hpieces⟩ := replaced hp hx hy (slash_stem hx (whole_pieces p _ (by simp [hp])) hext)
      have hname := fileName?_eq hpieces hy (by simp)
      split at hname
      · rw [extension?, hname, Option.bind_none]
      · rw [extension?_name hname, String.toList_ofList]
        have hplain : extended (splitExtension n.toList).1 "" = (splitExtension n.toList).1 := if_pos rfl
        rw [hplain, splitExtension_plain hdot, Option.map_none]

end EntityGen.Path
