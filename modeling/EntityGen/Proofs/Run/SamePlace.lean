import EntityGen.Proofs.Run.Level

namespace EntityGen

open Disk (segments steps)
open FileSystem (ensureParent)
open Text.Utf8 (Bytes encode)

namespace Emitter

variable {e : Emitter} {p q : Path} {text marker : String} {f : Failure}

theorem emit_error (h : (e.emit p text marker).result = .error f) : f ≠ .outputConflict q := by
  rintro rfl
  rcases emit_error_cases h with ⟨hf, -⟩ | ⟨_, _, hf⟩ <;> cases hf

theorem record_hasWritten (e : Emitter) (p : Path) (d : Disk) :
    (e.record p d).hasWritten q = true ↔ e.hasWritten q = true ∨ p ≈ q := by
  have hrecord : (e.record p d).written = if e.hasWritten p then e.written else e.written ++ [p] := rfl
  by_cases hw : e.hasWritten p = true
  · rw [if_pos hw] at hrecord
    obtain ⟨w, hm, hp⟩ := List.any_eq_true.1 hw
    rw [hasWritten, hrecord]
    constructor
    · exact .inl
    · rintro (h | h)
      · exact h
      · exact List.any_eq_true.2 ⟨w, hm, decide_eq_true (Setoid.trans (of_decide_eq_true hp) h)⟩
  · rw [if_neg hw] at hrecord
    rw [hasWritten, hrecord, List.any_append]
    simp [hasWritten]

end Emitter

namespace Generator

variable {g : Generator} {source : Source} {d : Disk} {c c' : Stage} {p w : Path}
  {text marker : String} {l : Location}

theorem Reaches.hasWritten (h : g.Reaches source d c) :
    c.pass.emitter.hasWritten p = true ↔ ∃ w ∈ c.pass.wrote, w ≈ p := by
  refine h.of_emissions (P := fun e written => e.hasWritten p = true ↔ ∃ w ∈ written, w ≈ p)
    ?_ (by simp [Emitter.hasWritten])
  intro e written q text marker ih _
  cases hr : (e.emit q text marker).result with
  | error f =>
      obtain ⟨-, hw, hev⟩ := Emitter.emit_failed hr
      rw [Emitter.hasWritten, hw, hev, List.filterMap_nil, List.append_nil]
      exact ih
  | ok u =>
      obtain ⟨-, d, d', -, -, he⟩ := Emitter.emit_done hr
      rw [he, Emitter.record_hasWritten, ih]
      simp [Pass.log?, or_and_right, exists_or]

theorem writeOnce_conflict (s : Pass) (p : Path) (text marker : String) :
    (s.writeOnce p text marker).1.failures = s.failures ++ [.outputConflict p] ↔
      s.emitter.hasWritten p = true := by
  rcases writeOnce_cases s p text marker with ⟨hw, he⟩ | ⟨hn, ⟨f, hr, he⟩ | ⟨-, he⟩⟩
  · rw [he, hw]
    exact ⟨fun _ => rfl, fun _ => rfl⟩
  · rw [he, hn]
    constructor
    · intro hc
      have := List.append_cancel_left hc
      exact absurd (List.cons.inj this).1 (Emitter.emit_error hr)
    · intro hc
      cases hc
  · rw [he, hn]
    simp [Pass.emit]

theorem writeOnce_disk_of_hasWritten {s : Pass} (h : s.emitter.hasWritten p = true) :
    (s.writeOnce p text marker).1.emitter.disk = s.emitter.disk := by
  rw [writeOnce_emitter, if_pos h]

/-- An output takes the place of the file that its path leads to once its directories are made. -/
theorem writeOnce_node {s : Pass} {b : Bytes} (hn : s.emitter.hasWritten p = false)
    (hr : (s.emitter.emit p text marker).result = .ok ())
    (hp : (ensureParent s.emitter.disk p).1.locate p = .ok l)
    (hb : s.emitter.disk.node? l = some (.file b)) :
    (s.writeOnce p text marker).1.emitter.disk.node? l = some (.file (encode text)) := by
  have he : (s.writeOnce p text marker).1.emitter = (s.emitter.emit p text marker).emitter := by
    rw [writeOnce_emitter, hn]
    rfl
  obtain ⟨-, k, k', hk, hw, hem⟩ := Emitter.emit_done hr
  obtain ⟨m, hm, hnode, -⟩ := Emitter.emit_node hr
  have hgrows : (ensureParent s.emitter.disk p).1.Grows
      (s.emitter.emit p text marker).emitter.disk := by
    rw [hk, hem]
    exact Disk.write_grows hw
  cases hm.symm.trans (hgrows.locate_ok hp)
  rw [he]
  rcases hnode with ⟨-, hsink⟩ | hnode
  · rw [hb] at hsink
    cases hsink
  · exact hnode

theorem Turn.pass (ht : g.Turn source c p text marker) (hf : Finishing c.phase)
    (hs : g.Step source c c') : c'.pass = (c.pass.writeOnce p text marker).1 := by
  cases ht with
  | header => exact absurd rfl (hf _)
  | listing | binding | manifest =>
      cases hs
      rfl

/-- What an output does to a file that the run wrote before: it is a conflict if and only if its path
is `≈` to a written one, and takes the file's place otherwise. -/
theorem same_place (h : g.Reaches source d c) (ht : g.Turn source c p text marker)
    (hf : Finishing c.phase) (hs : g.Step source c c') (hw : w ∈ c.pass.wrote)
    (hl : c.pass.emitter.disk.locate w = .ok l)
    (hp : (ensureParent c.pass.emitter.disk p).1.locate p = .ok l) :
    ((c'.pass.failures = c.pass.failures ++ [.outputConflict p] ∧
      c'.pass.emitter.disk.node? l = c.pass.emitter.disk.node? l) ↔ ∃ w ∈ c.pass.wrote, w ≈ p) ∧
    ((∀ w ∈ c.pass.wrote, ¬ w ≈ p) → p ∈ c'.pass.wrote →
      ∀ b, c.pass.emitter.disk.node? l = some (.file b) →
        c'.pass.emitter.disk.node? l = some (.file (encode text))) ∧
    (g.Plain source d → w ≈ p) := by
  rw [ht.pass hf hs]
  refine ⟨⟨fun hconflict => ?_, fun hw => ⟨?_, ?_⟩⟩, fun hno hp' b hb => ?_, ?_⟩
  · rw [← h.hasWritten]
    exact (writeOnce_conflict _ _ _ _).1 hconflict.1
  · exact (writeOnce_conflict _ _ _ _).2 (h.hasWritten.2 hw)
  · rw [writeOnce_disk_of_hasWritten (h.hasWritten.2 hw)]
  · have hn : c.pass.emitter.hasWritten p = false := by
      rw [Bool.eq_false_iff, ne_eq, h.hasWritten]
      rintro ⟨w, hw, he⟩
      exact hno w hw he
    have hne : p ∉ c.pass.wrote := fun hm => hno p hm (Setoid.refl p)
    rw [writeOnce_wrote, hn] at hp'
    obtain ⟨-, hr⟩ := mem_wrote_emission.1 ((List.mem_append.1 hp').resolve_left hne)
    exact writeOnce_node hn hr hp hb
  · intro hplain
    have hgrows := (Disk.ensureParent_furnishes c.pass.emitter.disk p).grows
    exact (h.wrote_stays hplain hw).equiv_of_place (h.finishing_stays hplain ht hf)
      (hgrows.locate_ok hl) hp

def twoSpellings : Generator where
  config := { bindingHeader := "a/../all.hpp", bindingSource := "b/../all.hpp" }
  output := "out"

def bare : Disk where
  workingDirectory := []
  nodes := []
  nodup := by decide

def headerPath : Path := "out/a/../all.hpp"

def sourcePath : Path := "out/b/../all.hpp"

def sourceText : String :=
  (twoSpellings.begin bare).bindings.source twoSpellings.config.marker headerPath

def headerPass : Pass :=
  ((twoSpellings.begin bare).writeOnce headerPath
    ((twoSpellings.begin bare).bindings.header twoSpellings.config.marker)
    twoSpellings.config.marker).1

def headerDone : Stage := ⟨.bindings [(sourcePath, sourceText)], headerPass⟩

def sourceDone : Stage :=
  ⟨.bindings [], (headerPass.writeOnce sourcePath sourceText twoSpellings.config.marker).1⟩

theorem reaches_headerDone : twoSpellings.Reaches (.inMemory []) bare headerDone := by
  refine ⟨by decide +kernel, [], rfl, ?_⟩
  refine .tail (.tail (.tail .refl .listings) .bindings) ?_
  exact .binding

theorem turn_source : twoSpellings.Turn (.inMemory []) headerDone sourcePath sourceText
    twoSpellings.config.marker := .binding

theorem step_sourceDone : twoSpellings.Step (.inMemory []) headerDone sourceDone := .binding

theorem headerDone_finishing : Finishing headerDone.phase := finishing_bindings _

theorem headerDone_wrote : headerPath ∈ headerDone.pass.wrote := by decide +kernel

theorem headerDone_locate :
    headerDone.pass.emitter.disk.locate headerPath = .ok ["out", "all.hpp"] := by decide +kernel

theorem sourcePath_locate :
    (ensureParent headerDone.pass.emitter.disk sourcePath).1.locate sourcePath =
      .ok ["out", "all.hpp"] := by decide +kernel

theorem sourceDone_node : sourceDone.pass.emitter.disk.node? ["out", "all.hpp"] ≠
    headerDone.pass.emitter.disk.node? ["out", "all.hpp"] := by decide +kernel

theorem second_spelling_overwrites : ∃ c c' p w text marker l,
    twoSpellings.Reaches (.inMemory []) bare c ∧
    twoSpellings.Turn (.inMemory []) c p text marker ∧ Finishing c.phase ∧
    twoSpellings.Step (.inMemory []) c c' ∧ w ∈ c.pass.wrote ∧
    c.pass.emitter.disk.locate w = .ok l ∧
    (ensureParent c.pass.emitter.disk p).1.locate p = .ok l ∧
    ¬ (c'.pass.failures = c.pass.failures ++ [.outputConflict p] ∧
      c'.pass.emitter.disk.node? l = c.pass.emitter.disk.node? l) :=
  ⟨headerDone, sourceDone, sourcePath, headerPath, sourceText, _, _, reaches_headerDone, turn_source,
    headerDone_finishing, step_sourceDone, headerDone_wrote, headerDone_locate, sourcePath_locate,
    fun h => sourceDone_node h.2⟩

theorem spelled_apart : headerPath ∈ headerDone.pass.wrote ∧
    headerDone.pass.emitter.disk.locate headerPath = .ok ["out", "all.hpp"] ∧
    (ensureParent headerDone.pass.emitter.disk sourcePath).1.locate sourcePath =
      .ok ["out", "all.hpp"] ∧
    ¬ (∃ w ∈ headerDone.pass.wrote, w ≈ sourcePath) ∧
    ¬ twoSpellings.Plain (.inMemory []) bare := by
  obtain ⟨hconflict, -, hplain⟩ := same_place reaches_headerDone turn_source headerDone_finishing
    step_sourceDone headerDone_wrote headerDone_locate sourcePath_locate
  have hno : ¬ ∃ w ∈ headerDone.pass.wrote, w ≈ sourcePath :=
    fun hw => sourceDone_node (hconflict.2 hw).2
  exact ⟨headerDone_wrote, headerDone_locate, sourcePath_locate, hno,
    fun hp => hno ⟨_, headerDone_wrote, hplain hp⟩⟩

end Generator

end EntityGen
