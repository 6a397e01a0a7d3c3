import EntityGen.Listing
import EntityGen.Proofs.Listing.Keyed

namespace EntityGen.Listing

/-- The second components, by the first ones. -/
def grouped (ps : List (String × String)) : List (String × List String) :=
  (ps.map Prod.fst).eraseDups.map fun n => (n, (ps.filter (·.1 = n)).map Prod.snd)

theorem grouped_names (ps : List (String × String)) :
    (grouped ps).map Prod.fst = (ps.map Prod.fst).eraseDups := by
  rw [grouped, List.map_map]
  exact List.map_id _

theorem grouped_entries {ps : List (String × String)} {n : String} {es : List String}
    (h : (n, es) ∈ grouped ps) : es = (ps.filter (·.1 = n)).map Prod.snd := by
  obtain ⟨m, -, heq⟩ := List.mem_map.1 h
  cases heq
  rfl

theorem mem_grouped {ps : List (String × String)} {n e : String} {es : List String}
    (h : (n, es) ∈ grouped ps) (he : e ∈ es) : (n, e) ∈ ps := by
  rw [grouped_entries h] at he
  obtain ⟨⟨n', e'⟩, hm, rfl⟩ := List.mem_map.1 he
  obtain ⟨hm, hn⟩ := List.mem_filter.1 hm
  rwa [← show n' = n from of_decide_eq_true hn]

/-- Each path of the list is there in one spelling of the list, and in one only. -/
structure Index.Distinct (qs ps : List Path) : Prop where
  subset : ∀ t ∈ qs, t ∈ ps
  covers : ∀ t ∈ ps, ∃ t' ∈ qs, t' ≈ t
  apart : qs.Pairwise fun t t' => ¬ t ≈ t'

namespace Index

variable {x : Index} {es : List (Path × String × String)} {is : List (Path × String)} {T : Path}

theorem distinct_eq (ps : List Path) : distinct ps = firsts Path.components ps := by
  induction ps using List.reverseRecOn with
  | nil => rfl
  | append_singleton ps p ih =>
      have hany : (firsts Path.components ps).any (· ≈ p) = true ↔
          p.components ∈ ps.map Path.components := by
        rw [← mem_keys_firsts, List.any_eq_true, List.mem_map]
        simp only [decide_eq_true_eq, Path.equiv_iff]
      rw [distinct, List.foldl_concat, ← distinct, ih, firsts_concat]
      by_cases hp : p.components ∈ ps.map Path.components
      · rw [if_pos (hany.2 hp), if_pos hp]
      · rw [if_neg (mt hany.1 hp), if_neg hp]

theorem distinct_spec (ps : List Path) : Distinct (distinct ps) ps := by
  rw [distinct_eq]
  refine ⟨fun t ht => (firsts_sublist ps).subset ht, fun t ht => ?_, ?_⟩
  · exact List.mem_map.1 (mem_keys_firsts.2 (List.mem_map_of_mem ht))
  · exact List.pairwise_map.1 (keys_firsts_nodup ps)

def entryKey (e : Path × String × String) : List Path.Component × String := (e.1.components, e.2.1)

def beginList (e : Path × String × String) : XList := ⟨e.1, e.2.1, []⟩

def takeEntry (e : Path × String × String) (l : XList) : XList := { l with entries := l.entries ++ [e.2.2] }

def inclusionKey (i : Path × String) : List Path.Component := i.1.components

def beginInclusions (i : Path × String) : IncludeList := ⟨i.1, [], []⟩

def takeInclusion (i : Path × String) (l : IncludeList) : IncludeList := l.add i.2

theorem beginList_key (e : Path × String × String) : (beginList e).key = entryKey e := rfl

theorem takeEntry_key (e : Path × String × String) (l : XList) : (takeEntry e l).key = l.key := rfl

theorem beginInclusions_key (i : Path × String) : (beginInclusions i).key = inclusionKey i := rfl

theorem takeInclusion_key (i : Path × String) (l : IncludeList) : (takeInclusion i l).key = l.key := by
  rw [takeInclusion, IncludeList.add]
  split <;> rfl

/-- The index after these list entries and these include lines. -/
def gathered (es : List (Path × String × String)) (is : List (Path × String)) : Index where
  xlistTable := .gather entryKey beginList takeEntry es
  includeTable := .gather inclusionKey beginInclusions takeInclusion is

def Gathers (x : Index) (es : List (Path × String × String)) (is : List (Path × String)) : Prop :=
  x = gathered es is

theorem Gathers.start : Gathers {} [] [] := rfl

theorem Gathers.addEntry (h : Gathers x es is) (t : Path) (n e : String) :
    Gathers (x.addEntry t n e) (es ++ [(t, n, e)]) is := by
  rw [Gathers, h, gathered, gathered, Keyed.gather_concat]
  rfl

theorem Gathers.addInclude (h : Gathers x es is) (t : Path) (path : String) :
    Gathers (x.addInclude t path) es (is ++ [(t, path)]) := by
  rw [Gathers, h, gathered, gathered, Keyed.gather_concat]
  rfl

theorem Gathers.addEntries (h : Gathers x es is) (new : List (Path × String × String)) :
    Gathers (new.foldl (fun x e => x.addEntry e.1 e.2.1 e.2.2) x) (es ++ new) is := by
  induction new generalizing x es with
  | nil => simpa using h
  | cons e new ih =>
      have := ih (h.addEntry e.1 e.2.1 e.2.2)
      rwa [List.append_assoc] at this

theorem Gathers.addIncludes (h : Gathers x es is) (new : List (Path × String)) :
    Gathers (new.foldl (fun x i => x.addInclude i.1 i.2) x) es (is ++ new) := by
  induction new generalizing x is with
  | nil => simpa using h
  | cons i new ih =>
      have := ih (h.addInclude i.1 i.2)
      rwa [List.append_assoc] at this

/-- Both tables lead to the lists of their keys. -/
structure Sound (x : Index) : Prop where
  xlists : x.xlistTable.Sound XList.key
  includeLists : x.includeTable.Sound IncludeList.key

theorem Gathers.sound (h : Gathers x es is) : x.Sound := by
  rw [h]
  exact ⟨Keyed.gather_sound beginList_key takeEntry_key es,
    Keyed.gather_sound beginInclusions_key takeInclusion_key is⟩

/-- The lists of these entries: each target and name that is asked for, with all that is asked for it. -/
def listed (es : List (Path × String × String)) : List XList :=
  (firsts entryKey es).map fun e => ⟨e.1, e.2.1, (es.filter (entryKey · = entryKey e)).map (·.2.2)⟩

def included (is : List (Path × String)) (T : Path) : List String :=
  ((is.filter (·.1 ≈ T)).map Prod.snd).eraseDups

def inclusions (is : List (Path × String)) : List IncludeList :=
  (firsts inclusionKey is).map fun i => ⟨i.1, included is i.1, included is i.1⟩

theorem takeEntries (es : List (Path × String × String)) (l : XList) :
    es.foldl (fun l e => takeEntry e l) l = { l with entries := l.entries ++ es.map (·.2.2) } := by
  induction es generalizing l with
  | nil => simp
  | cons e es ih => rw [List.foldl_cons, ih, takeEntry, List.map_cons, List.append_assoc, List.singleton_append]

theorem takeInclusions (is : List (Path × String)) (t : Path) :
    is.foldl (fun l i => takeInclusion i l) ⟨t, [], []⟩ =
      ⟨t, (is.map Prod.snd).eraseDups, (is.map Prod.snd).eraseDups⟩ := by
  induction is using List.reverseRecOn with
  | nil => rfl
  | append_singleton is i ih =>
      rw [List.foldl_concat, ih, List.map_append, List.map_singleton, eraseDups_concat, takeInclusion,
        IncludeList.add]
      simp only [List.mem_eraseDups]
      split <;> rfl

theorem Gathers.xlists (h : Gathers x es is) : x.xlists = listed es := by
  rw [h, Index.xlists, gathered, Keyed.gather_lists beginList_key takeEntry_key, listed]
  simp only [takeEntries, beginList, List.nil_append]

theorem Gathers.includeLists (h : Gathers x es is) : x.includeLists = inclusions is := by
  rw [h, Index.includeLists, gathered, Keyed.gather_lists beginInclusions_key takeInclusion_key, inclusions]
  simp only [beginInclusions, takeInclusions]
  rfl

theorem Gathers.lists (h : Gathers x es is) (T : Path) :
    x.listsOf T = grouped ((es.filter (·.1 ≈ T)).map Prod.snd) := by
  have hkey : ∀ a b : Path × String × String, entryKey a = entryKey b →
      decide (a.1 ≈ T) = decide (b.1 ≈ T) := by
    intro a b hab
    have hc : a.1.components = b.1.components := congrArg Prod.fst hab
    simp only [Path.equiv_iff, hc]
  -- Among the entries of one target the name alone is the key.
  have hnames : firsts entryKey (es.filter (·.1 ≈ T)) = firsts (fun e => e.2.1) (es.filter (·.1 ≈ T)) := by
    apply firsts_congr
    intro a ha b hb
    have hc : a.1.components = b.1.components :=
      Setoid.trans (of_decide_eq_true (List.mem_filter.1 ha).2)
        (Setoid.symm (of_decide_eq_true (List.mem_filter.1 hb).2))
    simp [entryKey, hc]
  have hfilter : (listed es).filter (·.target ≈ T) = (firsts (fun e => e.2.1) (es.filter (·.1 ≈ T))).map
      fun e => ⟨e.1, e.2.1, (es.filter (entryKey · = entryKey e)).map (·.2.2)⟩ := by
    rw [← hnames, ← filter_firsts hkey, listed, List.filter_map]
    rfl
  rw [listsOf, h.xlists, hfilter, grouped, List.map_map, List.map_map, eraseDups_map, List.map_map]
  apply List.map_congr_left
  intro e he
  have heT : e.1 ≈ T := of_decide_eq_true (List.mem_filter.1 ((firsts_sublist _).subset he)).2
  simp only [Function.comp_apply, List.filter_map, List.map_map, List.filter_filter, Prod.mk.injEq, true_and]
  congr 1
  apply List.filter_congr
  intro a _
  simp only [entryKey, Prod.mk.injEq, ← Bool.decide_and, decide_eq_decide]
  exact ⟨fun ⟨hc, hn⟩ => ⟨hn, Setoid.trans hc heT⟩, fun ⟨hn, hc⟩ => ⟨Setoid.trans hc (Setoid.symm heT), hn⟩⟩

theorem included_congr {t : Path} (h : t ≈ T) : included is t = included is T := by
  have he : ∀ a : Path, decide (a ≈ t) = decide (a ≈ T) := fun a => decide_eq_decide.2
    ⟨fun ha => Setoid.trans ha h, fun ha => Setoid.trans ha (Setoid.symm h)⟩
  simp only [included, he]

theorem Gathers.includes (h : Gathers x es is) (T : Path) :
    x.includesOf T = ((is.filter (·.1 ≈ T)).map Prod.snd).eraseDups := by
  have hlists : x.includeTable.lists = inclusions is := h.includeLists
  rw [includesOf, h.sound.includeLists.find?_eq, hlists, ← included]
  cases hf : (inclusions is).find? (IncludeList.key · = T.components) with
  | some l =>
      have hkey := List.find?_some hf
      have hl : l.target ≈ T := of_decide_eq_true hkey
      obtain ⟨i, -, rfl⟩ := List.mem_map.1 (List.mem_of_find?_eq_some hf)
      exact included_congr hl
  | none =>
      have hno : ∀ i ∈ is, ¬ i.1 ≈ T := by
        intro i hi hiT
        obtain ⟨j, hj, he⟩ := List.mem_map.1 (mem_keys_firsts.2 (List.mem_map_of_mem (f := inclusionKey) hi))
        have hfound := List.find?_eq_none.1 hf _ (List.mem_map_of_mem hj)
        exact hfound (decide_eq_true (he.trans hiT))
      rw [included, List.filter_eq_nil_iff.2 fun i hi => by simpa using hno i hi]
      rfl

theorem Gathers.targets_eq (h : Gathers x es is) :
    x.targets = firsts Path.components (es.map Prod.fst ++ is.map Prod.fst) := by
  have hes : firsts Path.components ((firsts entryKey es).map Prod.fst) =
      firsts Path.components (es.map Prod.fst) := by
    have hcoarse : ∀ a b : Path × String × String, entryKey a = entryKey b →
        a.1.components = b.1.components := fun a b hab => congrArg Prod.fst hab
    rw [firsts_map, firsts_map, firsts_firsts fun a _ b _ => hcoarse a b]
  have his : firsts Path.components ((firsts inclusionKey is).map Prod.fst) =
      firsts Path.components (is.map Prod.fst) := by
    have hcoarse : ∀ a b : Path × String, inclusionKey a = inclusionKey b →
        a.1.components = b.1.components := fun a b hab => hab
    rw [firsts_map, firsts_map, firsts_firsts fun a _ b _ => hcoarse a b]
  have hmem : ∀ k, k ∈ ((firsts entryKey es).map Prod.fst).map Path.components ↔
      k ∈ (es.map Prod.fst).map Path.components := fun k => by
    rw [← mem_keys_firsts, hes, mem_keys_firsts]
  have htargets : (listed es).map XList.target ++ (inclusions is).map IncludeList.target =
      (firsts entryKey es).map Prod.fst ++ (firsts inclusionKey is).map Prod.fst := by
    rw [listed, inclusions, List.map_map, List.map_map]
    rfl
  rw [targets, distinct_eq, h.xlists, h.includeLists, htargets, firsts_append, firsts_append, hes, his]
  congr 1
  apply List.filter_congr
  intro t _
  exact decide_eq_decide.2 (not_congr (hmem _))

theorem mem_directed_snd {γ : Type} {l : List (Path × γ)} {T : Path} {c : γ}
    (h : c ∈ (l.filter (·.1 ≈ T)).map Prod.snd) : ∃ t, (t, c) ∈ l ∧ t ≈ T := by
  obtain ⟨⟨t, c⟩, hm, rfl⟩ := List.mem_map.1 h
  obtain ⟨hm, he⟩ := List.mem_filter.1 hm
  exact ⟨t, hm, of_decide_eq_true he⟩

theorem Gathers.targets (h : Gathers x es is) :
    x.targets.Pairwise (fun t t' => ¬ t ≈ t') ∧ ∀ T, (∃ t ∈ x.targets, t ≈ T) ↔
      ∃ t, (t ∈ es.map Prod.fst ∨ t ∈ is.map Prod.fst) ∧ t ≈ T := by
  have hd := distinct_spec (es.map Prod.fst ++ is.map Prod.fst)
  rw [distinct_eq, ← h.targets_eq] at hd
  refine ⟨hd.apart, fun T => ⟨?_, ?_⟩⟩
  · rintro ⟨t, ht, he⟩
    exact ⟨t, List.mem_append.1 (hd.subset t ht), he⟩
  · rintro ⟨t, ht, he⟩
    obtain ⟨t', ht', he'⟩ := hd.covers t (List.mem_append.2 ht)
    exact ⟨t', ht', Setoid.trans he' he⟩

/-- One call of an index: an entry of an x-list, or a path for an include list. -/
inductive Call
  | entry (target : Path) (list entity : String)
  | inclusion (target : Path) (path : String)
  deriving DecidableEq

def Call.entry? : Call → Option (Path × String × String)
  | .entry t n e => some (t, n, e)
  | .inclusion _ _ => none

def Call.inclusion? : Call → Option (Path × String)
  | .entry _ _ _ => none
  | .inclusion t path => some (t, path)

def take (x : Index) : Call → Index
  | .entry t n e => x.addEntry t n e
  | .inclusion t path => x.addInclude t path

def after (calls : List Call) : Index := calls.foldl take {}

def entriesOf (calls : List Call) : List (Path × String × String) := calls.filterMap Call.entry?

def inclusionsOf (calls : List Call) : List (Path × String) := calls.filterMap Call.inclusion?

theorem after_gathers (calls : List Call) : Gathers (after calls) (entriesOf calls) (inclusionsOf calls) := by
  induction calls using List.reverseRecOn with
  | nil => exact .start
  | append_singleton calls call ih =>
      rw [after, List.foldl_concat, ← after, entriesOf, inclusionsOf, List.filterMap_append, List.filterMap_append,
        ← entriesOf, ← inclusionsOf]
      cases call with
      | entry t n e =>
          have hnone : [Call.entry t n e].filterMap Call.inclusion? = [] := rfl
          rw [hnone, List.append_nil]
          exact ih.addEntry t n e
      | inclusion t path =>
          have hnone : [Call.inclusion t path].filterMap Call.entry? = [] := rfl
          rw [hnone, List.append_nil]
          exact ih.addInclude t path

def sorted (es : List (Path × String × String)) (is : List (Path × String)) : List Call :=
  (es.map fun e => .entry e.1 e.2.1 e.2.2) ++ is.map fun i => .inclusion i.1 i.2

theorem entriesOf_sorted (es : List (Path × String × String)) (is : List (Path × String)) :
    entriesOf (sorted es is) = es := by
  rw [entriesOf, sorted, List.filterMap_append, List.filterMap_map, List.filterMap_map]
  have hes : es.filterMap (Call.entry? ∘ fun e => .entry e.1 e.2.1 e.2.2) = es := List.filterMap_some
  have his : is.filterMap (Call.entry? ∘ fun i => .inclusion i.1 i.2) = [] :=
    List.filterMap_eq_nil_iff.2 fun _ _ => rfl
  rw [hes, his, List.append_nil]

theorem inclusionsOf_sorted (es : List (Path × String × String)) (is : List (Path × String)) :
    inclusionsOf (sorted es is) = is := by
  rw [inclusionsOf, sorted, List.filterMap_append, List.filterMap_map, List.filterMap_map]
  have hes : es.filterMap (Call.inclusion? ∘ fun e => .entry e.1 e.2.1 e.2.2) = [] :=
    List.filterMap_eq_nil_iff.2 fun _ _ => rfl
  have his : is.filterMap (Call.inclusion? ∘ fun i => .inclusion i.1 i.2) = is := List.filterMap_some
  rw [hes, his, List.nil_append]

/-- Each file once, with all that is asked of its target and nothing else. -/
theorem Gathers.files (h : Gathers x es is) (marker : String) : x.files marker =
    (firsts Path.components (es.map Prod.fst ++ is.map Prod.fst)).map fun t =>
      (t, fileText (included is t) (grouped ((es.filter (·.1 ≈ t)).map Prod.snd)) marker) := by
  rw [Index.files, h.targets_eq]
  apply List.map_congr_left
  intro t _
  rw [text, h.includes, h.lists, included]

/-- An index is plain grouping: in whatever way the calls are mixed, its tables lead to its lists, its
lists are those of the entries and of the paths, and each target is one file of exactly these. The calls
for x-lists and those for include lists do not see each other. -/
theorem after_groups (calls : List Call) (marker : String) :
    (after calls).Sound ∧
      (after calls).xlists = listed (entriesOf calls) ∧
      (after calls).includeLists = inclusions (inclusionsOf calls) ∧
      (after calls).files marker =
        (firsts Path.components ((entriesOf calls).map Prod.fst ++ (inclusionsOf calls).map Prod.fst)).map
          (fun t => (t, fileText (included (inclusionsOf calls) t)
            (grouped (((entriesOf calls).filter (·.1 ≈ t)).map Prod.snd)) marker)) ∧
      Distinct (((after calls).files marker).map Prod.fst)
        ((entriesOf calls).map Prod.fst ++ (inclusionsOf calls).map Prod.fst) ∧
      after calls = after (sorted (entriesOf calls) (inclusionsOf calls)) := by
  have h := after_gathers calls
  have hsorted := after_gathers (sorted (entriesOf calls) (inclusionsOf calls))
  rw [entriesOf_sorted, inclusionsOf_sorted] at hsorted
  have htargets : ((after calls).files marker).map Prod.fst =
      distinct ((entriesOf calls).map Prod.fst ++ (inclusionsOf calls).map Prod.fst) := by
    rw [h.files, List.map_map, distinct_eq]
    exact List.map_id _
  refine ⟨h.sound, h.xlists, h.includeLists, h.files marker, ?_, h.trans hsorted.symm⟩
  rw [htargets]
  exact distinct_spec _

def mixed : List Call :=
  [.inclusion "all.hpp" "out/A.hpp", .entry "d/x.hpp" "ALL" "A", .inclusion "all.hpp" "out/A.hpp",
    .entry "d//x.hpp" "ALL" "B", .entry "d/./x.hpp" "ALL" "A"]

example : (after mixed).xlists = [⟨"d/x.hpp", "ALL", ["A", "B", "A"]⟩] ∧
    (after mixed).targets = ["d/x.hpp", "all.hpp"] ∧ (after mixed).includesOf "./all.hpp" = [] := by
  decide +kernel

end Index

end EntityGen.Listing
