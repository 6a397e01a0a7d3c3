import EntityGen.Emitter
import EntityGen.Proofs.Disk.Making

namespace EntityGen

open FileSystem (overwritable ensureParent ensureDirectories)
open Text.Utf8 (Bytes encode)

def Opens (marker : String) (b : Bytes) : Prop := encode marker <+: b

instance (marker : String) (b : Bytes) : Decidable (Opens marker b) :=
  inferInstanceAs (Decidable (_ <+: _))

theorem encode_append (s t : String) : encode (s ++ t) = encode s ++ encode t := by
  simp [encode]

theorem encode_inj {s t : String} : encode s = encode t ↔ s = t := by
  refine ⟨fun h => String.toByteArray_inj.1 ?_, congrArg encode⟩
  rw [← String.utf8Encode_toList, ← String.utf8Encode_toList, List.utf8Encode, List.utf8Encode]
  exact congrArg List.toByteArray h

theorem opens_append (marker rest : String) : Opens marker (encode (marker ++ rest)) := by
  rw [encode_append]
  exact List.prefix_append _ _

theorem encode_ne_nil {s : String} (h : s ≠ "") : encode s ≠ [] := by
  intro hs
  apply h
  rw [← String.toList_eq_nil_iff]
  cases hc : s.toList with
  | nil => rfl
  | cons c cs =>
      have hz : String.utf8EncodeChar c = [] := by
        rw [encode, hc, List.flatMap_cons, List.append_eq_nil_iff] at hs
        exact hs.1
      have := congrArg List.length hz
      rw [String.length_utf8EncodeChar] at this
      exact absurd this (Nat.ne_of_gt c.utf8Size_pos)

namespace Disk

variable {d d' : Disk} {p : Path} {l : Location} {marker : String}

theorem overwritable_eq (hm : marker ≠ "") : overwritable d p marker =
    match d.find p with
    | .error .notFound => .ok true
    | .error f => .error (.io p (.disk f))
    | .ok .directory => .error (.io p (.disk .isADirectory))
    | .ok (.file b) => .ok (decide (Opens marker b))
    | .ok .sink => .ok false := by
  have hlen : (encode marker).length ≠ 0 := fun h => encode_ne_nil hm (List.length_eq_zero_iff.1 h)
  simp only [overwritable, fileSystem_readHead, readHead]
  cases d.find p with
  | error f => cases f <;> rfl
  | ok n =>
      cases n with
      | directory => rw [if_neg hlen]
      | file b => simp only [Opens, List.prefix_iff_eq_take, eq_comm]
      | sink => simp [Ne.symm (encode_ne_nil hm)]

theorem overwritable_true (hm : marker ≠ "") : overwritable d p marker = .ok true ↔
    d.find p = .error .notFound ∨ ∃ b, d.find p = .ok (.file b) ∧ Opens marker b := by
  rw [overwritable_eq hm]
  cases d.find p with
  | error f => cases f <;> simp
  | ok n => cases n <;> simp

theorem overwritable_error {f : Failure} (h : overwritable d p marker = .error f) :
    ∃ k, f = .io p (.disk k) := by
  simp only [overwritable] at h
  split at h
  · cases h
  · cases h
  · cases h
    exact ⟨_, rfl⟩

theorem ensureParent_error {f : Failure} (h : (ensureParent d p).2 = .error f) :
    ∃ q k, f = .io q (.disk k) := by
  simp only [ensureParent] at h
  split at h
  · cases h
  next q _ =>
    split at h
    · cases h
    · cases hr : (ensureDirectories d q).2 with
      | error k =>
          simp only [hr] at h
          cases h
          exact ⟨q, k, rfl⟩
      | ok u =>
          simp only [hr] at h
          cases h

theorem ensureParent_furnishes (d : Disk) (p : Path) : d.Furnishes (ensureParent d p).1 := by
  simp only [ensureParent]
  split
  · exact .refl d
  · split
    · exact .refl d
    · exact ensureChain_furnishes d _

end Disk

namespace Emitter

variable {e : Emitter} {p : Path} {text marker : String} {l : Location} {b : Bytes}

theorem emit_cases (e : Emitter) (p : Path) (text marker : String) :
    (overwritable e.disk p marker ≠ .ok true ∧ ∃ f, e.emit p text marker = ⟨e, .error f, []⟩) ∨
    overwritable e.disk p marker = .ok true ∧
      ((∃ d f, ensureParent e.disk p = (d, .error f) ∧
        e.emit p text marker = ⟨{ e with disk := d }, .error f, []⟩) ∨
      ∃ d, ensureParent e.disk p = (d, .ok ()) ∧
        ((∃ f, d.write p (encode text) = .error f ∧
          e.emit p text marker = ⟨{ e with disk := d }, .error (.io p (.disk f)), []⟩) ∨
        ∃ d', d.write p (encode text) = .ok d' ∧
          e.emit p text marker = ⟨e.record p d', .ok (), [.generated p]⟩)) := by
  simp only [emit]
  cases ho : overwritable e.disk p marker with
  | error f => exact .inl ⟨by simp, f, rfl⟩
  | ok free =>
      cases free with
      | false => exact .inl ⟨by simp, _, rfl⟩
      | true =>
          refine .inr ⟨rfl, ?_⟩
          rcases hp : ensureParent e.disk p with ⟨d, f | u⟩
          · exact .inl ⟨d, f, rfl, rfl⟩
          · refine .inr ⟨d, rfl, ?_⟩
            cases hw : d.write p (encode text) with
            | error f => exact .inl ⟨f, rfl, by simp only [Disk.fileSystem_write, hw]⟩
            | ok d' => exact .inr ⟨d', rfl, by simp only [Disk.fileSystem_write, hw]⟩

theorem emit_failed {f : Failure} (h : (e.emit p text marker).result = .error f) :
    e.disk.Furnishes (e.emit p text marker).emitter.disk ∧
      (e.emit p text marker).emitter.written = e.written ∧ (e.emit p text marker).events = [] := by
  have hp := Disk.ensureParent_furnishes e.disk p
  rcases emit_cases e p text marker with
    ⟨-, g, he⟩ | ⟨-, ⟨d, g, hd, he⟩ | ⟨d, hd, ⟨g, -, he⟩ | ⟨d', -, he⟩⟩⟩
  · rw [he]
    exact ⟨.refl _, rfl, rfl⟩
  · rw [he]
    rw [hd] at hp
    exact ⟨hp, rfl, rfl⟩
  · rw [he]
    rw [hd] at hp
    exact ⟨hp, rfl, rfl⟩
  · rw [he] at h
    cases h

/-- What is refused is refused before anything is done. -/
theorem emit_error_cases {f : Failure} (h : (e.emit p text marker).result = .error f) :
    (f = .overwriteRefused p ∧ e.emit p text marker = ⟨e, .error f, []⟩) ∨
      ∃ q k, f = .io q (.disk k) := by
  simp only [emit] at h ⊢
  cases ho : overwritable e.disk p marker with
  | error k =>
      rw [ho] at h
      cases h
      exact .inr ⟨p, Disk.overwritable_error ho⟩
  | ok free =>
      cases free with
      | false =>
          rw [ho] at h
          cases h
          exact .inl ⟨rfl, rfl⟩
      | true =>
          rw [ho] at h
          rcases hp : ensureParent e.disk p with ⟨d, k | u⟩
          · simp only [hp] at h
            cases h
            exact .inr (Disk.ensureParent_error (congrArg Prod.snd hp))
          · simp only [hp, Disk.fileSystem_write] at h
            cases hw : d.write p (encode text) with
            | error k =>
                simp only [hw] at h
                cases h
                exact .inr ⟨p, k, rfl⟩
            | ok d' =>
                simp only [hw] at h
                cases h

theorem emit_refused {q : Path} (h : (e.emit p text marker).result = .error (.overwriteRefused q)) :
    e.emit p text marker = ⟨e, .error (.overwriteRefused q), []⟩ := by
  rcases emit_error_cases h with ⟨-, he⟩ | ⟨_, k, hf⟩
  · exact he
  · cases hf

theorem emit_done (h : (e.emit p text marker).result = .ok ()) :
    overwritable e.disk p marker = .ok true ∧ ∃ d d', ensureParent e.disk p = (d, .ok ()) ∧
      d.write p (encode text) = .ok d' ∧
        e.emit p text marker = ⟨e.record p d', .ok (), [.generated p]⟩ := by
  rcases emit_cases e p text marker with
    ⟨-, g, he⟩ | ⟨ho, ⟨d, g, -, he⟩ | ⟨d, hd, ⟨g, -, he⟩ | ⟨d', hw, he⟩⟩⟩
  · rw [he] at h; cases h
  · rw [he] at h; cases h
  · rw [he] at h; cases h
  · exact ⟨ho, d, d', hd, hw, he⟩

theorem emit_grows (e : Emitter) (p : Path) (text marker : String) :
    e.disk.Grows (e.emit p text marker).emitter.disk := by
  cases hr : (e.emit p text marker).result with
  | error f => exact (emit_failed hr).1.grows
  | ok u =>
      obtain ⟨-, d, d', hd, hw, he⟩ := emit_done hr
      have hp := Disk.ensureParent_furnishes e.disk p
      rw [hd] at hp
      rw [he]
      exact hp.grows.trans (Disk.write_grows hw)

theorem emit_isTree (ht : e.disk.IsTree) (p : Path) (text marker : String) :
    (e.emit p text marker).emitter.disk.IsTree := by
  cases hr : (e.emit p text marker).result with
  | error f => exact (emit_failed hr).1.isTree ht
  | ok u =>
      obtain ⟨-, d, d', hd, hw, he⟩ := emit_done hr
      have hp := Disk.ensureParent_furnishes e.disk p
      rw [hd] at hp
      rw [he]
      exact Disk.write_isTree hw (hp.isTree ht)

/-- What an emission wrote stands where its path leads then; all else is as it was, but for new
directories. -/
theorem emit_node (h : (e.emit p text marker).result = .ok ()) :
    ∃ l, (e.emit p text marker).emitter.disk.locate p = .ok l ∧
      ((e.emit p text marker).emitter.disk.node? l = some .sink ∧ e.disk.node? l = some .sink ∨
        (e.emit p text marker).emitter.disk.node? l = some (.file (encode text))) ∧
      ∀ m, m ≠ l → (e.emit p text marker).emitter.disk.node? m = e.disk.node? m ∨
        e.disk.node? m = none ∧ (e.emit p text marker).emitter.disk.node? m = some .directory := by
  obtain ⟨-, d, d', hd, hw, he⟩ := emit_done h
  have hp := Disk.ensureParent_furnishes e.disk p
  rw [hd] at hp
  rw [he]
  have hg := Disk.write_grows hw
  obtain ⟨l, s, -, hl, -, ⟨hn, rfl⟩ | ⟨hn, rfl⟩⟩ := Disk.write_ok hw
  · refine ⟨_, hl, .inl ⟨hn, ?_⟩, fun m _ => hp.node m⟩
    rcases hp.node (l ++ [s]) with ho | ⟨-, hdir⟩
    · rw [← ho, hn]
    · rw [hn] at hdir; cases hdir
  · refine ⟨_, hg.locate_ok hl, .inr (Disk.node?_put_self d _ (by simp)), fun m hm => ?_⟩
    rw [record, Disk.node?_put_ne d _ hm]
    exact hp.node m

/-- A device is written only by a path that did not lead to it before: the guard refuses others. -/
theorem emit_sink (hm : marker ≠ "") (h : (e.emit p text marker).result = .ok ())
    (hl : (e.emit p text marker).emitter.disk.locate p = .ok l) (hs : e.disk.node? l = some .sink) :
    e.disk.find p = .error .notFound := by
  rcases (Disk.overwritable_true hm).1 (emit_done h).1 with hmiss | ⟨b, hb, -⟩
  · exact hmiss
  · obtain ⟨k, hk, hb⟩ := Disk.find_ok.1 hb
    cases ((emit_grows e p text marker).locate_ok hk).symm.trans hl
    rw [hs] at hb
    cases hb

/-- A file keeps its content, or the emission wrote it. Then its path led nowhere before, or led to
it, and the file began with the marker. -/
theorem emit_file (text : String) (hm : marker ≠ "") (hb : e.disk.node? l = some (.file b)) :
    (e.emit p text marker).emitter.disk.node? l = some (.file b) ∨
    (e.emit p text marker).result = .ok () ∧
      (e.emit p text marker).emitter.disk.node? l = some (.file (encode text)) ∧
      (e.emit p text marker).emitter.disk.locate p = .ok l ∧
      (e.disk.find p = .error .notFound ∨ e.disk.locate p = .ok l ∧ Opens marker b) := by
  cases hr : (e.emit p text marker).result with
  | error f => exact .inl ((emit_failed hr).1.keep hb)
  | ok u =>
      obtain ⟨k, hk, hn, hother⟩ := emit_node hr
      by_cases hlk : l = k
      · subst hlk
        refine .inr ⟨rfl, ?_, hk, ?_⟩
        · rcases hn with ⟨-, hs⟩ | hn
          · rw [hb] at hs; cases hs
          · exact hn
        · rcases (Disk.overwritable_true hm).1 (emit_done hr).1 with hp | ⟨c, hp, ho⟩
          · exact .inl hp
          · obtain ⟨k, hk', hc⟩ := Disk.find_ok.1 hp
            have : k = l := Except.ok.inj (((emit_grows e p text marker).locate_ok hk').symm.trans hk)
            subst this
            rw [hb] at hc
            cases hc
            exact .inr ⟨hk', ho⟩
      · rcases hother l hlk with hl | ⟨hl, -⟩
        · exact .inl (hl.trans hb)
        · rw [hb] at hl; cases hl

end Emitter

end EntityGen
