import EntityGen.Proofs.Reemission
import EntityGen.Proofs.Run.SamePlace

namespace EntityGen

open Disk (segments steps)
open EntityGen.Path (Level Stays)
open FileSystem (overwritable)
open Text.Utf8 (Bytes encode)

namespace Disk

variable {F D D₁ D' : Disk} {l : Location} {b : Bytes}

/-- `D'` is what `D` will have become in `F`, but for contents that are still those of `D`. -/
structure Tracks (F D D' : Disk) : Prop where
  workingDirectory : D'.workingDirectory = F.workingDirectory
  node : ∀ l, D'.node? l = F.node? l ∨
    ∃ b, D.node? l = some (.file b) ∧ D'.node? l = some (.file b)

theorem Tracks.refl (F D : Disk) : Tracks F D F := ⟨rfl, fun _ => .inl rfl⟩

theorem Tracks.grows (h : Tracks F D D') (hD : D.Grows D₁) (hF : D₁.Grows F) : D₁.Grows D' where
  workingDirectory := h.workingDirectory.trans hF.workingDirectory
  directory {l} hl := by
    rcases h.node l with he | ⟨b, hb, -⟩
    · rw [he]
      exact hF.directory hl
    · obtain ⟨c, hc⟩ := hD.file hb
      rw [hl] at hc
      cases hc
  file {l b} hl := by
    rcases h.node l with he | ⟨c, -, hc⟩
    · rw [he]
      exact hF.file hl
    · exact ⟨c, hc⟩
  sink {l} hl := by
    rcases h.node l with he | ⟨b, hb, -⟩
    · rw [he]
      exact hF.sink hl
    · obtain ⟨c, hc⟩ := hD.file hb
      rw [hl] at hc
      cases hc

theorem Tracks.furnish (h : Tracks F D D') (hf : D.Furnishes D₁) : Tracks F D₁ D' where
  workingDirectory := h.workingDirectory
  node l := (h.node l).imp id fun ⟨b, hb, hb'⟩ => ⟨b, hf.keep hb, hb'⟩

theorem Tracks.end (h : Tracks F F D') (l : Location) : D'.node? l = F.node? l := by
  rcases h.node l with he | ⟨b, hb, hb'⟩
  · exact he
  · rw [hb, hb']

theorem Tracks.put (h : Tracks F D D') (hl : l ≠ []) (hb : D₁.node? l = some (.file b))
    (hother : ∀ m, m ≠ l → D₁.node? m = D.node? m ∨
      D.node? m = none ∧ D₁.node? m = some .directory) :
    Tracks F D₁ (D'.put l (.file b)) where
  workingDirectory := h.workingDirectory
  node m := by
    by_cases hm : m = l
    · subst hm
      exact .inr ⟨b, hb, node?_put_self D' _ hl⟩
    · rw [node?_put_ne D' _ hm]
      refine (h.node m).imp id fun ⟨c, hc, hc'⟩ => ⟨c, ?_, hc'⟩
      rcases hother m hm with he | ⟨hn, -⟩
      · rw [he, hc]
      · rw [hn] at hc
        cases hc

end Disk

namespace Generator

variable {g : Generator} {source : Source} {d : Disk} {s s' : Pass} {c c₁ c' E : Stage}
  {p q : Path} {text marker : String} {l : Location} {b : Bytes}

/-- No output but the manifest itself has the manifest's path. -/
def Apart (g : Generator) (source : Source) (d : Disk) : Prop :=
  ∀ c p text marker, g.Reaches source d c → g.Turn source c p text marker →
    c.phase ≠ .bindings [] → ¬ p ≈ g.manifestPath

theorem Turn.marked (ht : g.Turn source c p text marker) :
    c.phase ≠ .bindings [] ∧ marker = g.config.marker ∨
      c.phase = .bindings [] ∧ p = g.manifestPath ∧ marker = g.config.manifestMarker := by
  cases ht with
  | header | listing | binding =>
      refine .inl ⟨fun hc => ?_, rfl⟩
      cases hc
  | manifest => exact .inr ⟨rfl, rfl, rfl⟩

/-- The second emission comes to what the first one came to. -/
structure Agrees (F : Disk) (m m' : Emitter.Emission) : Prop where
  result : (m.result = .ok () ∧ m'.result = .ok ()) ∨
    ∃ f f', m.result = .error f ∧ m'.result = .error f'
  disk : Disk.Tracks F m.emitter.disk m'.emitter.disk
  written : m'.emitter.written = m.emitter.written
  events : m'.events = m.events

section

variable {e' : Emitter} (h : g.Reaches source d c) (hp : g.Plain source d) (ht : d.IsTree)
  (ha : g.Apart source d) (hturn : g.Turn source c p text marker) (hs : g.Step source c c₁)
  (hem : c₁.pass.emitter = (c.pass.emitter.emit p text marker).emitter)
  (hE : g.Leads source c₁ E) (htracks : Disk.Tracks E.pass.emitter.disk c.pass.emitter.disk e'.disk)
  (hwritten : e'.written = c.pass.emitter.written)

include h hp ht ha hturn hs hE htracks

include hem

include hwritten

end

end Generator

end EntityGen
