import EntityGen.Run
import EntityGen.Proofs.FileSystem

namespace EntityGen

section Map

variable {σ τ : Type} (f : σ → τ)

def Emitter.map (e : Emitter σ) : Emitter τ := ⟨f e.disk, e.written⟩

def Emitter.Emission.map (m : Emission σ) : Emission τ := ⟨m.emitter.map f, m.result, m.events⟩

def Pass.map (s : Pass σ) : Pass τ := { s with emitter := s.emitter.map f }

def Ran.map (r : Ran σ) : Ran τ := ⟨f r.disk, r.outcome, r.events⟩

/-- The source that is asked about the image. -/
def Source.comap (source : Source τ) : Source σ :=
  { source with paths := fun d => source.paths (f d), read := fun d => source.read (f d) }

namespace Pass

variable (s : Pass σ)

theorem map_count (e : Entity) (document : Path) :
    (s.map f).count e document = (s.count e document).map f := by
  have hs : (s.map f).seen = s.seen := rfl
  simp only [count, hs]
  split <;> rfl

theorem map_bind (e : Entity) (schema : Schema) :
    (s.map f).bind e schema = (s.bind e schema).map f := by
  have hb : (s.map f).bindings = s.bindings := rfl
  simp only [bind, hb]
  split
  · cases s.bindings.register schema e.output <;> rfl
  · rfl

end Pass

end Map

variable {σ τ : Type} [FileSystem σ] [FileSystem τ] {f : σ → τ}

namespace FileSystem.Agrees

variable (h : Agrees f) (d : σ) (p : Path)
include h

theorem emit (e : Emitter σ) (text marker : String) :
    (e.map f).emit p text marker = (e.emit p text marker).map f := by
  simp only [Emitter.emit, Emitter.map, h.overwritable, h.ensureParent]
  cases FileSystem.overwritable e.disk p marker with
  | error g => rfl
  | ok free =>
      cases free with
      | false => rfl
      | true =>
          obtain ⟨d, r⟩ := FileSystem.ensureParent e.disk p
          cases r with
          | error g => rfl
          | ok _ =>
              simp only [Prod.map, id, h.write]
              cases FileSystem.write d p (Text.Utf8.encode text) <;> rfl

theorem emit_pass (s : Pass σ) (text marker : String) :
    (s.map f).emit p text marker = (s.emit p text marker).map (Pass.map f) id := by
  simp only [Pass.emit, Pass.map, h.emit]
  rfl

theorem writeOnce (s : Pass σ) (text marker : String) :
    (s.map f).writeOnce p text marker = (s.writeOnce p text marker).map (Pass.map f) id := by
  have hw : (s.map f).emitter.hasWritten p = s.emitter.hasWritten p := rfl
  simp only [Pass.writeOnce, hw, h.emit_pass]
  split
  · rfl
  · obtain ⟨t, r⟩ := s.emit p text marker
    cases r <;> rfl

variable (g : Generator)

theorem generate (source : Source τ) (s : Pass σ) (document output : Path) (schema : Schema) :
    g.generate (s.map f) source document schema output =
      (g.generate s (source.comap f) document schema output).map f := by
  have hl : (s.map f).log (.generating (source.display document) output) =
      (s.log (.generating (source.display document) output)).map f := rfl
  have hd : (source.comap f).display = source.display := rfl
  simp only [Generator.generate, hl, hd, h.emit_pass]
  obtain ⟨t, r⟩ := Pass.emit _ output _ g.config.marker
  cases r with
  | error g => rfl
  | ok _ =>
      have hc : ∀ (t : Pass σ) e directory,
          (t.map f).collect e directory = (t.collect e directory).map f := fun _ _ _ => rfl
      simp only [Prod.map, id, Pass.map_count, hc, Pass.map_bind]

theorem process (source : Source τ) (s : Pass σ) (document : Path) :
    g.process source (s.map f) document =
      ((g.process (source.comap f) s document).map (Pass.map f)).mapError (Pass.map f) := by
  have hr : source.read (s.map f).emitter.disk = (source.comap f).read s.emitter.disk := rfl
  simp only [Generator.process, hr]
  cases (source.comap f).read s.emitter.disk document with
  | error g => rfl
  | ok bytes =>
      dsimp only
      cases Schema.parse bytes with
      | error e => rfl
      | ok schema =>
          dsimp only
          cases g.entityPath? document with
          | none => rfl
          | some output =>
              simp only [h.generate]
              rfl

theorem documents (source : Source τ) (ds : List Path) (s : Pass σ) :
    ds.foldlM (g.process source) (s.map f) =
      ((ds.foldlM (g.process (source.comap f)) s).map (Pass.map f)).mapError (Pass.map f) := by
  induction ds generalizing s with
  | nil => rfl
  | cons document ds ih =>
      simp only [List.foldlM_cons, h.process]
      cases g.process (source.comap f) s document with
      | error t => rfl
      | ok t => exact ih t

theorem writes (fs : List (Path × String)) (marker : String) (s : Pass σ) :
    fs.foldl (fun s f => (s.writeOnce f.1 f.2 marker).1) (s.map f) =
      (fs.foldl (fun s f => (s.writeOnce f.1 f.2 marker).1) s).map f := by
  induction fs generalizing s with
  | nil => rfl
  | cons a fs ih =>
      simp only [List.foldl_cons, h.writeOnce]
      exact ih _

theorem finish (s : Pass σ) : g.finish (s.map f) = (g.finish s).map (Pass.map f) id := by
  have hs : g.sharedFiles (s.map f) = g.sharedFiles s := rfl
  simp only [Generator.finish, hs, h.writes]
  generalize (g.sharedFiles s).foldl _ s = t
  have hw : (t.map f).emitter.written = t.emitter.written := rfl
  rw [hw, h.writeOnce]
  rfl

/-- Nothing but the answers of the file system plays a part in a run. -/
theorem run (source : Source τ) :
    g.run source (f d) = (g.run (source.comap f) d).map f := by
  have hp : (source.comap f).paths d = source.paths (f d) := rfl
  simp only [Generator.run, hp]
  cases g.config.validate with
  | error e => rfl
  | ok _ =>
      cases source.paths (f d) with
      | error e => rfl
      | ok ds =>
          have hb : g.begin (f d) = (g.begin d).map f := rfl
          simp only [hb, h.documents]
          cases ds.foldlM (g.process (source.comap f)) (g.begin d) with
          | error t => rfl
          | ok t =>
              simp only [Except.map, Except.mapError, h.finish]
              rfl

end FileSystem.Agrees

/-- A disk without links runs as one that cannot have any. -/
theorem Generator.run_unlinked (g : Generator) (source : Source Linked) (d : Disk) :
    g.run source (Linked.unlinked d) = (g.run (source.comap Linked.unlinked) d).map Linked.unlinked :=
  Linked.agrees_unlinked.run d g source

end EntityGen
