import EntityGen.Proofs.Run.Again
import EntityGen.Proofs.Run.Contents

namespace EntityGen

open Text.Utf8 (Bytes)

namespace Generator

variable {g : Generator} {source : Source} {d F : Disk} {s s' t : Pass} {c c₁ E : Stage}
  {p : Path} {text marker : String}

/-- States of the two runs that have come equally far. -/
structure Twin (F : Disk) (s s' : Pass) : Prop where
  disk : Disk.Tracks F s.emitter.disk s'.emitter.disk
  written : s'.emitter.written = s.emitter.written
  index : s'.index = s.index
  bindings : s'.bindings = s.bindings
  seen : s'.seen = s.seen
  entities : s'.entities = s.entities
  wrote : s'.wrote = s.wrote

theorem Twin.log (h : Twin F s s') (e : Event) : Twin F (s.log e) (s'.log e) := by
  refine ⟨h.disk, h.written, h.index, h.bindings, h.seen, h.entities, ?_⟩
  have hs : (s.log e).events = s.events ++ [e] := rfl
  have hs' : (s'.log e).events = s'.events ++ [e] := rfl
  rw [wrote_append hs, wrote_append hs', h.wrote]

theorem Twin.fail (h : Twin F s s') (f f' : Failure) : Twin F (s.fail f) (s'.fail f') := by
  refine ⟨h.disk, h.written, h.index, h.bindings, h.seen, h.entities, ?_⟩
  rw [fail_wrote, fail_wrote, h.wrote]

theorem Twin.emit (h : Twin F s s')
    (ha : Agrees F (s.emitter.emit p text marker) (s'.emitter.emit p text marker)) :
    Twin F (s.emit p text marker).1 (s'.emit p text marker).1 := by
  refine ⟨ha.disk, ha.written, h.index, h.bindings, h.seen, h.entities, ?_⟩
  have hs : (s.emit p text marker).1.events =
      s.events ++ (s.emitter.emit p text marker).events := rfl
  have hs' : (s'.emit p text marker).1.events =
      s'.events ++ (s'.emitter.emit p text marker).events := rfl
  rw [wrote_append hs, wrote_append hs', h.wrote, ha.events]

theorem Twin.count (h : Twin F s s') (e : Entity) (document : Path) :
    Twin F (s.count e document) (s'.count e document) := by
  have hone : Twin F { s with entities := s.entities + 1 } { s' with entities := s'.entities + 1 } :=
    ⟨h.disk, h.written, h.index, h.bindings, h.seen, congrArg (· + 1) h.entities, h.wrote⟩
  by_cases hm : e.qualifiedName ∈ s.seen
  · have hm' : e.qualifiedName ∈ s'.seen := h.seen ▸ hm
    simp only [Pass.count, hm, hm', if_true]
    exact hone.log _
  · have hm' : e.qualifiedName ∉ s'.seen := h.seen ▸ hm
    simp only [Pass.count, hm, hm', if_false]
    exact ⟨hone.disk, hone.written, hone.index, hone.bindings, congrArg (· ++ [e.qualifiedName]) h.seen,
      hone.entities, hone.wrote⟩

theorem Twin.collect (h : Twin F s s') (e : Entity) (directory : Path) :
    Twin F (s.collect e directory) (s'.collect e directory) := by
  refine ⟨h.disk, h.written, ?_, h.bindings, h.seen, h.entities, h.wrote⟩
  simp only [Pass.collect, h.index]

theorem Twin.bind (h : Twin F s s') (e : Entity) (schema : Schema) :
    Twin F (s.bind e schema) (s'.bind e schema) := by
  by_cases hwants : e.wantsBindings = true
  · cases hr : s.bindings.register schema e.output with
    | error f =>
        have hr' : s'.bindings.register schema e.output = .error f := h.bindings ▸ hr
        simp only [Pass.bind, hwants, if_true, hr, hr']
        exact h.fail f f
    | ok r =>
        have hr' : s'.bindings.register schema e.output = .ok r := h.bindings ▸ hr
        have hbound : Twin F { s with bindings := r } { s' with bindings := r } :=
          ⟨h.disk, h.written, h.index, rfl, h.seen, h.entities, h.wrote⟩
        simp only [Pass.bind, hwants, if_true, hr, hr']
        exact hbound.log _
  · simp only [Pass.bind, hwants]
    exact h

theorem Twin.hasWritten (h : Twin F s s') (p : Path) :
    s'.emitter.hasWritten p = s.emitter.hasWritten p := by
  rw [Emitter.hasWritten, Emitter.hasWritten, h.written]

section

variable (hp : g.Plain source d) (ht : d.IsTree) (ha : g.Apart source d)
  (hE : g.Reaches source d E) (hend : g.Ended source E)

include hp ht ha hE hend

end

end Generator

end EntityGen
