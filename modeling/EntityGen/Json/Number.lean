import EntityGen.Json.Reader
import EntityGen.Decimal

namespace EntityGen.Json

open Text.Utf8 (Bytes)
open Decimal (Binary64 Layout)

structure Numeral where
  negative : Bool
  whole : Bytes
  fraction : Option Bytes
  exponent : Option Int

inductive Number
  | whole (negative : Bool) (magnitude : Nat)
  | double (negative : Bool) (magnitude : Binary64)
  deriving DecidableEq

def isDigit (b : UInt8) : Bool := 0x30 ≤ b && b ≤ 0x39

def digitsValue (ds : Bytes) : Nat := ds.foldl (fun n d => 10 * n + (d.toNat - 0x30)) 0

/-- One digit or more; `short` is the fault where the text ends instead. -/
def digits (short : Fault) (s : Bytes) : Except Fault (Bytes × Bytes) :=
  match s with
  | [] => .error short
  | b :: t =>
    if isDigit b then .ok (b :: t.takeWhile isDigit, t.dropWhile isDigit) else .error .malformed

def wholeDigits (short : Fault) (s : Bytes) : Except Fault (Bytes × Bytes) :=
  match s with
  | 0x30 :: b :: t => if isDigit b then .error .malformed else .ok ([0x30], b :: t)
  | s => digits short s

def fractionDigits (short : Fault) (s : Bytes) : Except Fault (Option Bytes × Bytes) :=
  match s with
  | 0x2E :: t => (digits short t).map fun (ds, r) => (some ds, r)
  | s => .ok (none, s)

def signedDigits (short : Fault) (s : Bytes) : Except Fault (Int × Bytes) :=
  match s with
  | 0x2B :: t => (digits short t).map fun (ds, r) => (digitsValue ds, r)
  | 0x2D :: t => (digits short t).map fun (ds, r) => (-digitsValue ds, r)
  | s => (digits short s).map fun (ds, r) => (digitsValue ds, r)

def exponentValue (short : Fault) (s : Bytes) : Except Fault (Option Int × Bytes) :=
  match s with
  | b :: t =>
    if b = 0x65 ∨ b = 0x45 then (signedDigits short t).map fun (e, r) => (some e, r)
    else .ok (none, b :: t)
  | [] => .ok (none, [])

def numeralStep (short : Fault) (s : Bytes) : Except Fault (Numeral × Bytes) := do
  let negative := s.head? = some 0x2D
  let (whole, s) ← wholeDigits short (if negative then s.tail else s)
  let (fraction, s) ← fractionDigits short s
  let (exponent, s) ← exponentValue short s
  return (⟨negative, whole, fraction, exponent⟩, s)

theorem digits_length {short : Fault} {s ds r : Bytes} (h : digits short s = .ok (ds, r)) :
    r.length < s.length := by
  unfold digits at h
  split at h
  · simp at h
  · split at h
    · simp only [Except.ok.injEq, Prod.mk.injEq] at h
      rw [← h.2]
      exact Nat.lt_succ_of_le (length_dropWhile_le _ _)
    · simp at h

theorem wholeDigits_length {short : Fault} {s ds r : Bytes}
    (h : wholeDigits short s = .ok (ds, r)) : r.length < s.length := by
  unfold wholeDigits at h
  split at h
  · split at h
    · simp at h
    · simp only [Except.ok.injEq, Prod.mk.injEq] at h
      rw [← h.2]; simp
  · exact digits_length h

theorem ok_of_map {α β : Type} {e : Except Fault α} {f : α → β} {b : β} (h : e.map f = .ok b) :
    ∃ a, e = .ok a ∧ f a = b := by
  cases e with
  | error => simp [Except.map] at h
  | ok a => exact ⟨a, rfl, by simpa [Except.map] using h⟩

theorem fractionDigits_length {short : Fault} {s r : Bytes} {f : Option Bytes}
    (h : fractionDigits short s = .ok (f, r)) : r.length ≤ s.length := by
  unfold fractionDigits at h
  split at h
  · obtain ⟨⟨_, _⟩, hd, he⟩ := ok_of_map h
    have := digits_length hd
    simp only [Prod.mk.injEq] at he
    simp only [List.length_cons, ← he.2]; omega
  · simp only [Except.ok.injEq, Prod.mk.injEq] at h
    exact Nat.le_of_eq (congrArg _ h.2.symm)

theorem signedDigits_length {short : Fault} {s r : Bytes} {e : Int}
    (h : signedDigits short s = .ok (e, r)) : r.length < s.length := by
  unfold signedDigits at h
  split at h <;>
    · obtain ⟨⟨_, _⟩, hd, he⟩ := ok_of_map h
      have := digits_length hd
      simp only [Prod.mk.injEq] at he
      simp only [List.length_cons, ← he.2] at *; omega

theorem exponentValue_length {short : Fault} {s r : Bytes} {e : Option Int}
    (h : exponentValue short s = .ok (e, r)) : r.length ≤ s.length := by
  unfold exponentValue at h
  split at h
  · split at h
    · obtain ⟨⟨_, _⟩, hd, he⟩ := ok_of_map h
      have := signedDigits_length hd
      simp only [Prod.mk.injEq] at he
      simp only [List.length_cons, ← he.2]; omega
    · simp only [Except.ok.injEq, Prod.mk.injEq] at h
      exact Nat.le_of_eq (congrArg _ h.2.symm)
  · simp only [Except.ok.injEq, Prod.mk.injEq] at h
    exact Nat.le_of_eq (congrArg _ h.2.symm)

theorem numeralStep_length {short : Fault} {s r : Bytes} {n : Numeral}
    (h : numeralStep short s = .ok (n, r)) : r.length < s.length := by
  simp only [numeralStep, bind, Except.bind, pure, Except.pure] at h
  split at h
  · simp at h
  next w hw =>
    split at h
    · simp at h
    next f hf =>
      split at h
      · simp at h
      next e he =>
        simp only [Except.ok.injEq, Prod.mk.injEq] at h
        have h1 := wholeDigits_length hw
        have h2 := fractionDigits_length hf
        have h3 := exponentValue_length he
        have h4 : (if s.head? = some 0x2D then s.tail else s).length ≤ s.length := by
          split
          · simp
          · exact Nat.le_refl _
        rw [← h.2]; omega

def numeral (short : Fault) : Reader Numeral := Reader.ofStep (numeralStep short) numeralStep_length

/-- Positional from `0.00001` to below `10 ^ 16`, then `1e+16` and `1e-6`. -/
def doubleLayout : Layout := ⟨-5, 16, "e", "+", "-"⟩

def fits (negative : Bool) (n : Nat) : Bool :=
  if negative then 0 < n && n ≤ Nat.pow 2 63 else n < Nat.pow 2 64

def Numeral.number? (n : Numeral) : Option Number :=
  let w := digitsValue n.whole
  if n.fraction.isNone ∧ n.exponent.isNone ∧ fits n.negative w then some (.whole n.negative w)
  else
    let f := n.fraction.getD []
    (Binary64.ofDecimal (digitsValue (n.whole ++ f)) (n.exponent.getD 0 - f.length)).map
      (.double n.negative)

def Number.text : Number → String
  | .whole negative n => (if negative then "-" else "") ++ toString n
  | .double negative x =>
    (if negative then "-" else "") ++ doubleLayout.write (Decimal.shortest x)

def number : Reader Number := fun s => do
  let n ← numeral .ended s
  match n.value.number? with
  | some v => return n.map fun _ => v
  | none => .error .malformed

end EntityGen.Json
