import EntityGen.Proofs.Json.Shuffling
import EntityGen.Proofs.Json.Strict
import EntityGen.Schema
import Mathlib.Control.Monad.Basic

namespace EntityGen.Schema

open Json
open Text.Utf8 (Bytes encode)

theorem fieldEntryFields_proper : Fields.Proper fieldEntryFields := by
  intro f hf a
  simp only [fieldEntryFields, List.mem_cons, List.not_mem_nil, or_false] at hf
  rcases hf with rfl | rfl | rfl
  · exact optionalText_proper.map _
  · exact optionalText_proper.map _
  · exact (value_proper _).map _

theorem fieldEntryFields_apart : Fields.Apart fieldEntryFields := by
  simp only [Fields.Apart, fieldEntryFields, List.pairwise_cons, List.forall_mem_cons, List.not_mem_nil,
    false_imp_iff, implies_true, and_true, List.Pairwise.nil]
  refine ⟨⟨?_, ?_⟩, ?_⟩ <;> exact apart_put _ _ fun _ _ _ => rfl

theorem fieldEntry_proper : (record fieldEntryFields {}).Proper := record_proper fieldEntryFields_proper {}

theorem documentFields_proper : Fields.Proper documentFields := by
  intro f hf a
  simp only [documentFields, List.mem_cons, List.not_mem_nil, or_false] at hf
  rcases hf with rfl | rfl | rfl | rfl | rfl | rfl | rfl
  · exact optionalText_proper.map _
  · exact optionalText_proper.map _
  · exact (listOf_proper fieldEntry_proper).map _
  · exact (listOf_proper textValue_proper).map _
  · exact (listOf_proper textValue_proper).map _
  · exact (listOf_proper (listOf_proper textValue_proper)).map _
  · exact (listOf_proper textValue_proper).map _

theorem documentFields_apart : Fields.Apart documentFields := by
  simp only [Fields.Apart, documentFields, List.pairwise_cons, List.forall_mem_cons, List.not_mem_nil,
    false_imp_iff, implies_true, and_true, List.Pairwise.nil]
  refine ⟨⟨?_, ?_, ?_, ?_, ?_, ?_⟩, ⟨?_, ?_, ?_, ?_, ?_⟩, ⟨?_, ?_, ?_, ?_⟩, ⟨?_, ?_, ?_⟩, ⟨?_, ?_⟩, ?_⟩ <;>
    exact apart_put _ _ fun _ _ _ => rfl

/-- The member as it was, but for space. -/
structure Kept (m m' : Member) : Prop where
  key : m'.key = m.key
  value : m'.value = m.value

/-- A field whose members stand in another order, with others among them. -/
def EntryShuffled (v v' : Bytes) : Prop :=
  ∃ ms ms', IsRecord ms v ∧ IsRecord ms' v' ∧ Shuffled fieldEntryFields Kept ms ms'

def DataShuffled (v v' : Bytes) : Prop :=
  ∃ vs vs', IsList vs v ∧ IsList vs' v' ∧ List.Forall₂ (fun w w' => w' = w ∨ EntryShuffled w w') vs vs'

structure KeptShuffled (m m' : Member) : Prop where
  key : m'.key = m.key
  value : m'.value = m.value ∨ m.name = .ok "data" ∧ DataShuffled m.value m'.value

def IsDocument (ms : List Member) (t : Bytes) : Prop :=
  ∃ g v g', Gap g ∧ IsRecord ms v ∧ Gap g' ∧ t = g ++ (v ++ g')

/-- A document whose members stand in another order, with others among them; so may the members of its
fields. -/
def Rearranged (t t' : Bytes) : Prop :=
  ∃ ms ms', IsDocument ms t ∧ IsDocument ms' t' ∧ Shuffled documentFields KeptShuffled ms ms'

variable {m m' : Member} {v v' t t' : Bytes} {d : Document}

theorem name_congr (h : m'.key = m.key) : m'.name = m.name := by rw [Member.name, Member.name, h]

theorem Kept.take {α : Type} {fs : Fields α} (h : Kept m m') (acc : List String × α) :
    take fs.enter acc m' = take fs.enter acc m := by
  rw [Json.take, Json.take, name_congr h.key, h.value]

theorem EntryShuffled.reads {f : FieldEntry} (h : EntryShuffled v v')
    (hf : (record fieldEntryFields {}).reads v = .ok f) : (record fieldEntryFields {}).reads v' = .ok f := by
  obtain ⟨ms, ms', hv, hv', hs⟩ := h
  refine reads_shuffled fieldEntryFields_proper.apt fieldEntryFields_apart (fun m m' hm acc b hb => ?_) hs hv hv' hf
  rw [hm.take, hb]

theorem DataShuffled.reads {fs : List FieldEntry} (h : DataShuffled v v')
    (hf : (listOf (record fieldEntryFields {})).reads v = .ok fs) :
    (listOf (record fieldEntryFields {})).reads v' = .ok fs := by
  obtain ⟨vs, vs', hv, hv', hs⟩ := h
  rw [reads_listOf fieldEntry_proper.apt hv] at hf
  rw [reads_listOf fieldEntry_proper.apt hv']
  clear hv hv'
  induction hs generalizing fs with
  | nil => exact hf
  | @cons w w' _ _ hw _ ih =>
      rw [List.mapM_cons] at hf ⊢
      obtain ⟨f, hread, hf⟩ := ok_of_bind hf
      obtain ⟨fs, hreads, hf⟩ := ok_of_bind hf
      have hread' : (record fieldEntryFields {}).reads w' = .ok f := by
        rcases hw with rfl | hw
        · exact hread
        · exact hw.reads hread
      rw [hread', ← hf]
      exact congrArg (fun e => e >>= fun fs => Except.ok (f :: fs)) (ih hreads)

theorem lookup_data : documentFields.lookup "data" =
    some fun d => (listOf (record fieldEntryFields {})).map fun fs => { d with data := fs } := rfl

theorem KeptShuffled.take {acc b : List String × Document} (h : KeptShuffled m m')
    (hb : take documentFields.enter acc m = .ok b) : take documentFields.enter acc m' = .ok b := by
  rcases h.value with hv | ⟨hname, hdata⟩
  · rw [Kept.take ⟨h.key, hv⟩, hb]
  · obtain ⟨k, hk, hb⟩ := ok_of_bind hb
    rw [hname] at hk
    cases hk
    obtain ⟨r, hr, hb⟩ := ok_of_bind hb
    simp only [Fields.enter, lookup_data] at hr
    split at hr
    · cases hr
    next hn =>
      cases hr
      rw [Reader.reads_map, Reader.reads_map] at hb
      obtain ⟨_, hd, rfl⟩ := ok_of_map hb
      obtain ⟨fs, hfs, rfl⟩ := ok_of_map hd
      refine take_known ((name_congr h.key).trans hname) lookup_data hn ?_
      rw [Reader.reads_map, hdata.reads hfs]
      rfl

theorem isDocument_of_read (h : Document.read t = .ok d) (ht : (skipSpace t).head? = some openRecord) :
    ∃ ms, IsDocument ms t := by
  obtain ⟨g', hg', hread⟩ := whole_ok h
  obtain ⟨g, v, hg, rfl, ⟨ms, hv⟩ | ⟨vs, hv⟩⟩ := record_ok documentFields_proper.strict hread
  · exact ⟨ms, g, v, g', hg, hv, hg', rfl⟩
  · obtain ⟨⟨s, rfl, -⟩, -⟩ := hv
    rw [List.cons_append, skipSpace_gap_cons hg (by decide), List.head?_cons] at ht
    exact absurd (Option.some.inj ht) (by decide)

/-- What is read of a document, and the schema or the fault that comes of it, does not depend on the order of
the members or on those that are not known. -/
theorem parse_rearranged (hread : Document.read t = .ok d) :
    ((skipSpace t).head? = some openRecord → ∃ ms, IsDocument ms t) ∧
    ∀ t', Rearranged t t' → Document.read t' = .ok d ∧ parse t' = parse t := by
  refine ⟨isDocument_of_read hread, ?_⟩
  rintro t' ⟨ms, ms', ⟨g, v, e, hg, hv, he, rfl⟩, ⟨g', v', e', hg', hv', he', rfl⟩, hs⟩
  have hapt : (record documentFields {}).Apt := (record_proper documentFields_proper {}).apt
  have hread' : Document.read (g' ++ (v' ++ e')) = .ok d := by
    rw [Document.read, whole_value hapt hv.isValue hg he] at hread
    rw [Document.read, whole_value hapt hv'.isValue hg' he']
    exact reads_shuffled documentFields_proper.apt documentFields_apart (fun m m' hm acc b => hm.take) hs hv hv' hread
  exact ⟨hread', by rw [parse, parse, hread, hread']⟩

def textLiteral (s : String) : Bytes := quote :: (encode s ++ [quote])
def textMember (k v : String) : Member := { key := encode k, value := textLiteral v }

/-- No field has it. Its value holds a number above every double and half a surrogate pair. -/
def stray : Member where
  key := encode "note"
  value := listText [encode "1e999", textLiteral "\\uD800"]

def dataMember (ms : List Member) : Member := { key := encode "data", value := listText [recordText ms] }

def tidyEntry : List Member := [textMember "name" "x", textMember "type" "int"]
def tidyMembers : List Member := [textMember "name" "A", dataMember tidyEntry]

def strayEntry : List Member := [textMember "type" "int", stray, textMember "name" "x"]
def strayMembers : List Member := [stray, dataMember strayEntry, textMember "name" "A", stray]

def tidyDocument : Document where
  name := some "A"
  data := [{ name := some "x", type := some "int" }]

def words : List String := ["name", "A", "x", "type", "int", "data", "note"]

theorem words_text {w : String} (h : w ∈ words) : IsText (encode w) := by
  have hall : words.all (fun w => isPlain (encode w)) = true := by decide +kernel
  exact isText_of_isPlain (List.all_eq_true.1 hall w h)

theorem textMember_spelled {k v : String} (hk : k ∈ words) (hv : v ∈ words) :
    (textMember k v).Spelled ∧ IsValue (textMember k v).value :=
  ⟨⟨words_text hk, gap_nil, gap_nil⟩, .text (words_text hv)⟩

theorem stray_spelled : stray.Spelled ∧ IsValue stray.value := by
  have hnumber : IsNumber ([0x31] ++ ([] ++ [0x65, 0x39, 0x39, 0x39])) :=
    .positive (.digits (by decide) ⟨by simp, by simp [isDigit]⟩) .none (.plain (.inl rfl) ⟨by simp, by simp [isDigit]⟩)
  have hunit : ∀ x ∈ ([0x44, 0x38, 0x30, 0x30] : Bytes), hexDigit? x ≠ none := by simp [hexDigit?]
  have hhalf : IsValue (textLiteral "\\uD800") := .text (.unit hunit .nil)
  refine ⟨⟨words_text (by decide), gap_nil, gap_nil⟩, (isList_listText ?_).isValue⟩
  simp only [List.forall_mem_cons]
  exact ⟨.number hnumber, hhalf, fun _ h => absurd h List.not_mem_nil⟩

theorem isList_data {ms : List Member} (h : IsRecord ms (recordText ms)) :
    IsList [recordText ms] (dataMember ms).value :=
  isList_listText (List.forall_mem_singleton.2 h.isValue)

theorem dataMember_spelled {ms : List Member} (h : IsRecord ms (recordText ms)) :
    (dataMember ms).Spelled ∧ IsValue (dataMember ms).value :=
  ⟨⟨words_text (by decide), gap_nil, gap_nil⟩, (isList_data h).isValue⟩

theorem tidyEntry_record : IsRecord tidyEntry (recordText tidyEntry) := by
  refine isRecord_recordText ?_
  simp only [tidyEntry, List.forall_mem_cons]
  exact ⟨textMember_spelled (by decide) (by decide), textMember_spelled (by decide) (by decide),
    fun _ h => absurd h List.not_mem_nil⟩

theorem strayEntry_record : IsRecord strayEntry (recordText strayEntry) := by
  refine isRecord_recordText ?_
  simp only [strayEntry, List.forall_mem_cons]
  exact ⟨textMember_spelled (by decide) (by decide), stray_spelled, textMember_spelled (by decide) (by decide),
    fun _ h => absurd h List.not_mem_nil⟩

theorem tidyMembers_record : IsRecord tidyMembers (recordText tidyMembers) := by
  refine isRecord_recordText ?_
  simp only [tidyMembers, List.forall_mem_cons]
  exact ⟨textMember_spelled (by decide) (by decide), dataMember_spelled tidyEntry_record,
    fun _ h => absurd h List.not_mem_nil⟩

theorem strayMembers_record : IsRecord strayMembers (recordText strayMembers) := by
  refine isRecord_recordText ?_
  simp only [strayMembers, List.forall_mem_cons]
  exact ⟨stray_spelled, dataMember_spelled strayEntry_record, textMember_spelled (by decide) (by decide),
    stray_spelled, fun _ h => absurd h List.not_mem_nil⟩

theorem stray_name : stray.name = .ok "note" := by decide +kernel

theorem entry_strays : EntryShuffled (recordText tidyEntry) (recordText strayEntry) := by
  refine ⟨_, _, tidyEntry_record, strayEntry_record, tidyEntry, [stray], ?_, ?_, by decide +kernel⟩
  · exact .cons ⟨rfl, rfl⟩ (.cons ⟨rfl, rfl⟩ .nil)
  · exact List.forall_mem_singleton.2 ⟨_, stray_name, by decide⟩

theorem members_stray : Rearranged (recordText tidyMembers) (recordText strayMembers) := by
  refine ⟨tidyMembers, strayMembers, ?_, ?_, [textMember "name" "A", dataMember strayEntry], [stray, stray], ?_, ?_,
    by decide +kernel⟩
  · exact ⟨[], _, [], gap_nil, tidyMembers_record, gap_nil, (List.append_nil _).symm⟩
  · exact ⟨[], _, [], gap_nil, strayMembers_record, gap_nil, (List.append_nil _).symm⟩
  · have hdata : DataShuffled (dataMember tidyEntry).value (dataMember strayEntry).value :=
      ⟨_, _, isList_data tidyEntry_record, isList_data strayEntry_record, .cons (.inr entry_strays) .nil⟩
    exact .cons ⟨rfl, .inl rfl⟩ (.cons ⟨rfl, .inr ⟨by decide +kernel, hdata⟩⟩ .nil)
  · have hstray : documentFields.Ignores stray := ⟨_, stray_name, by decide⟩
    exact List.forall_mem_cons.2 ⟨hstray, List.forall_mem_singleton.2 hstray⟩

theorem strays_ignored : Rearranged (recordText tidyMembers) (recordText strayMembers) ∧
    Document.read (recordText tidyMembers) = .ok tidyDocument ∧
    Document.read (recordText strayMembers) = .ok tidyDocument ∧
    parse (recordText strayMembers) = parse (recordText tidyMembers) := by
  have hread : Document.read (recordText tidyMembers) = .ok tidyDocument := by decide +kernel
  exact ⟨members_stray, hread, (parse_rearranged hread).2 _ members_stray⟩

example : recordText strayMembers = encode
    ("\x7b\"note\":[1e999,\"\\uD800\"],\"data\":[\x7b\"type\":\"int\",\"note\":[1e999,\"\\uD800\"]," ++
      "\"name\":\"x\"\x7d],\"name\":\"A\",\"note\":[1e999,\"\\uD800\"]\x7d") := by decide +kernel

end EntityGen.Schema
