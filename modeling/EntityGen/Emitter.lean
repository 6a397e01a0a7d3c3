import EntityGen.Failure
import EntityGen.FileSystem

namespace EntityGen

open Text.Utf8 (encode)

namespace FileSystem

variable {σ : Type} [FileSystem σ]

/-- Whether a path may be written. Nothing may stand there, or a file that opens with the marker.
A path that leads nowhere yet counts as free. -/
def overwritable (d : σ) (p : Path) (marker : String) : Except Failure Bool :=
  match readHead d p (encode marker).length with
  | .ok head => .ok (head = encode marker)
  | .error .notFound => .ok true
  | .error f => .error (.io p (.disk f))

def ensureParent (d : σ) (p : Path) : σ × Except Failure Unit :=
  match p.parent? with
  | none => (d, .ok ())
  | some q =>
    if q.text = "" then (d, .ok ())
    else
      let (d', r) := ensureDirectories d q
      (d', r.mapError fun f => .io q (.disk f))

end FileSystem

/-- The disk, and what was written on it: each path once, as first spelled, in order. -/
structure Emitter (σ : Type := Disk) where
  disk : σ
  written : List Path := []

namespace Emitter

variable {σ : Type}

structure Emission (σ : Type := Disk) where
  emitter : Emitter σ
  result : Except Failure Unit
  events : List Event

def hasWritten (e : Emitter σ) (p : Path) : Bool := e.written.any (· ≈ p)

def record (e : Emitter σ) (p : Path) (d : σ) : Emitter σ :=
  { disk := d, written := if e.hasWritten p then e.written else e.written ++ [p] }

/-- Writes `text` to `p` if it may be written, making the directories it is in. -/
def emit [FileSystem σ] (e : Emitter σ) (p : Path) (text marker : String) : Emission σ :=
  match FileSystem.overwritable e.disk p marker with
  | .error f => ⟨e, .error f, []⟩
  | .ok false => ⟨e, .error (.overwriteRefused p), []⟩
  | .ok true =>
    match FileSystem.ensureParent e.disk p with
    | (d, .error f) => ⟨{ e with disk := d }, .error f, []⟩
    | (d, .ok ()) =>
      match FileSystem.write d p (encode text) with
      | .error f => ⟨{ e with disk := d }, .error (.io p (.disk f)), []⟩
      | .ok d' => ⟨e.record p d', .ok (), [.generated p]⟩

end Emitter

end EntityGen
