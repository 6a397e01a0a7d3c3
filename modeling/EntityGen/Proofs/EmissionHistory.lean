import EntityGen.Proofs.Emission
import EntityGen.Proofs.Listing.Keyed

namespace EntityGen

open FileSystem (overwritable)
open Listing (firsts)
open Text.Utf8 (encode)

namespace Disk

variable {d d' : Disk} {p : Path} {l : Location} {marker : String}

/-- Something stands at the path that may not be written over. A device has no content, so it does not
begin with a marker. -/
def Guards (d : Disk) (p : Path) (marker : String) : Prop :=
  (∃ b, d.find p = .ok (.file b) ∧ ¬ Opens marker b) ∨ d.find p = .ok .sink ∧ marker ≠ ""

theorem overwritable_false : overwritable d p marker = .ok false ↔ d.Guards p marker := by
  by_cases hm : marker = ""
  · subst hm
    have hnil : encode "" = [] := rfl
    have hopens : ∀ b, Opens "" b := fun b => List.nil_prefix
    simp only [overwritable, fileSystem_readHead, readHead, Guards, hopens, hnil, List.length_nil, List.take_zero]
    cases d.find p with
    | error f => cases f <;> simp
    | ok n => cases n <;> simp
  · rw [overwritable_eq hm, Guards]
    cases d.find p with
    | error f => cases f <;> simp
    | ok n => cases n <;> simp [hm]

theorem file_iff (h : d'.node? l = d.node? l ∨ d.node? l = none ∧ d'.node? l = some .directory)
    (b : Text.Utf8.Bytes) : d'.node? l = some (.file b) ↔ d.node? l = some (.file b) := by
  rcases h with h | ⟨hnone, hdir⟩
  · rw [h]
  · rw [hnone, hdir]
    simp

end Disk

namespace Emitter

variable {e : Emitter} {p q : Path} {ps : List Path} {text marker : String}

theorem emit_refused_iff : (e.emit p text marker).result = .error (.overwriteRefused q) ↔
    q = p ∧ e.disk.Guards p marker := by
  rw [← Disk.overwritable_false]
  constructor
  · intro h
    rcases emit_cases e p text marker with
      ⟨hno, -, -⟩ | ⟨-, ⟨d, f, hd, he⟩ | ⟨d, -, ⟨f, -, he⟩ | ⟨d', -, he⟩⟩⟩
    · cases ho : overwritable e.disk p marker with
      | error f =>
          obtain ⟨k, rfl⟩ := Disk.overwritable_error ho
          simp only [emit, ho] at h
          cases h
      | ok free =>
          cases free with
          | true => exact absurd ho hno
          | false =>
              simp only [emit, ho] at h
              cases h
              exact ⟨rfl, rfl⟩
    · obtain ⟨r, k, rfl⟩ := Disk.ensureParent_error (congrArg Prod.snd hd)
      rw [he] at h
      cases h
    · rw [he] at h
      cases h
    · rw [he] at h
      cases h
  · rintro ⟨rfl, ho⟩
    simp only [emit, ho]

theorem hasWritten_iff : e.hasWritten p = true ↔ p.components ∈ e.written.map Path.components := by
  simp only [hasWritten, List.any_eq_true, decide_eq_true_eq, Path.equiv_iff, List.mem_map]

theorem emit_written (h : e.written = firsts Path.components ps) (p : Path) (text marker : String) :
    (e.emit p text marker).emitter.written =
      firsts Path.components (ps ++ if (e.emit p text marker).result = .ok () then [p] else []) := by
  cases hr : (e.emit p text marker).result with
  | error f => rw [(emit_failed hr).2.1, h, if_neg (by simp), List.append_nil]
  | ok u =>
      obtain ⟨-, d, d', -, -, he⟩ := emit_done hr
      have hkeys : e.hasWritten p = true ↔ p.components ∈ ps.map Path.components := by
        rw [hasWritten_iff, h, Listing.mem_keys_firsts]
      rw [he, record, if_pos rfl, Listing.firsts_concat, ← h]
      by_cases hp : e.hasWritten p = true
      · rw [if_pos hp, if_pos (hkeys.1 hp)]
      · rw [if_neg hp, if_neg (mt hkeys.2 hp)]

structure Request where
  path : Path
  text : String
  marker : String

def answer (e : Emitter) (r : Request) : Emission := e.emit r.path r.text r.marker

/-- The emitter once it has answered requests one after the other. -/
def after (e : Emitter) (rs : List Request) : Emitter := rs.foldl (fun e r => (e.answer r).emitter) e

def met (e : Emitter) : List Request → List Path
  | [] => []
  | r :: rs => (if (e.answer r).result = .ok () then [r.path] else []) ++ met (e.answer r).emitter rs

theorem after_written (h : e.written = firsts Path.components ps) (rs : List Request) :
    (e.after rs).written = firsts Path.components (ps ++ e.met rs) := by
  induction rs generalizing e ps with
  | nil =>
      rw [met, List.append_nil]
      exact h
  | cons r rs ih =>
      have hstep := ih (emit_written h r.path r.text r.marker)
      rw [List.append_assoc] at hstep
      exact hstep

/-- What an answer leaves, by how it ended. Nothing is said of what a device holds. -/
structure Settled (e : Emitter) (r : Request) (a : Emission) : Prop where
  content : a.result = .ok () → a.emitter.disk.find r.path ≠ .ok .sink →
    a.emitter.disk.read r.path = .ok (encode r.text)
  others : a.result = .ok () → ∀ l, a.emitter.disk.locate r.path ≠ .ok l → ∀ b,
    (a.emitter.disk.node? l = some (.file b) ↔ e.disk.node? l = some (.file b))
  failure : ∀ f, a.result = .error f → a.emitter.written = e.written ∧ ∀ l b,
    (a.emitter.disk.node? l = some (.file b) ↔ e.disk.node? l = some (.file b))
  refusal : (∃ p, a.result = .error (.overwriteRefused p)) ↔ e.disk.Guards r.path r.marker
  refused : ∀ p, a.result = .error (.overwriteRefused p) → p = r.path ∧ a.emitter = e

theorem answer_settled (e : Emitter) (r : Request) : Settled e r (e.answer r) where
  content h hno := by
    obtain ⟨l, hl, hn, -⟩ := emit_node h
    rcases hn with ⟨hsink, -⟩ | hfile
    · exact absurd (Disk.find_ok.2 ⟨l, hl, hsink⟩) hno
    · rw [Disk.read, answer, Disk.find_ok.2 ⟨l, hl, hfile⟩]
  others h m hm b := by
    obtain ⟨l, hl, -, hother⟩ := emit_node h
    exact Disk.file_iff (hother m fun he => hm (he ▸ hl)) b
  failure f h := by
    obtain ⟨hfurnishes, hwritten, -⟩ := emit_failed h
    exact ⟨hwritten, fun l b => Disk.file_iff (hfurnishes.node l) b⟩
  refusal := ⟨fun ⟨_, h⟩ => (emit_refused_iff.1 h).2, fun h => ⟨r.path, emit_refused_iff.2 ⟨rfl, h⟩⟩⟩
  refused p h := ⟨(emit_refused_iff.1 h).1, congrArg Emission.emitter (emit_refused h)⟩

/-- After any requests the next answer settles the files as its result says, and the emitter holds the
paths of the requests that were met, each by its first spelling. -/
theorem history_settled (d : Disk) (rs : List Request) (r : Request) :
    Settled (after { disk := d } rs) r ((after { disk := d } rs).answer r) ∧
    (after { disk := d } rs).written = firsts Path.components (met { disk := d } rs) ∧
    (after { disk := d } rs).written.Pairwise (fun p q => ¬ p ≈ q) := by
  have hwritten : (after { disk := d } rs).written = firsts Path.components (met { disk := d } rs) := by
    have hnone : ({ disk := d } : Emitter).written = firsts Path.components [] := rfl
    exact after_written hnone rs
  refine ⟨answer_settled _ r, hwritten, ?_⟩
  rw [hwritten]
  exact List.pairwise_map.1 (Listing.keys_firsts_nodup _)

def devices : Disk where
  workingDirectory := []
  nodes := [(["dev"], .directory), (["dev", "null"], .sink), (["tmp"], .directory)]
  nodup := by decide

/-- A device is refused though it is no file; without a marker it is written, and holds nothing then. -/
theorem device_no_file : devices.find "/dev/null" = .ok .sink ∧
    (emit { disk := devices } "/dev/null" "x" "// m").result = .error (.overwriteRefused "/dev/null") ∧
    (emit { disk := devices } "/dev/null" "x" "").result = .ok () ∧
    (emit { disk := devices } "/dev/null" "x" "").emitter.disk.read "/dev/null" = .ok [] := by
  decide +kernel

end Emitter

end EntityGen
