import EntityGen.Text.Basic
import Mathlib.Tactic.SplitIfs

namespace EntityGen.Text.Utf8

variable {v w k m n : Nat} {x y : Bytes}

/-- Without the last `k` digits to the base of 64. -/
def shifted : Nat → Nat → Nat
  | 0, v => v
  | k + 1, v => shifted k (v / 64)

/-- The last `k` digits, each in an octet. -/
def continued : Nat → Nat → Bytes
  | 0, _ => []
  | k + 1, v => continued k (v / 64) ++ [UInt8.ofNat (v % 64 + 0x80)]

def more (v : Nat) : Nat := if v ≤ 0x7f then 0 else if v ≤ 0x7ff then 1 else if v ≤ 0xffff then 2 else 3

def mark : Nat → Nat
  | 0 => 0
  | 1 => 0xc0
  | 2 => 0xe0
  | _ => 0xf0

def first (v : Nat) : Nat := shifted (more v) v + mark (more v)

theorem codePoint_lt (c : Char) : c.val.toNat < 0x110000 := by
  rcases c.valid with h | h
  · have h : c.val.toNat < 0xd800 := h
    omega
  · exact h.2

theorem encodeChar_eq (c : Char) : String.utf8EncodeChar c =
    UInt8.ofNat (first c.val.toNat) :: continued (more c.val.toNat) c.val.toNat := by
  have hc := codePoint_lt c
  simp only [String.utf8EncodeChar, first, more]
  generalize c.val.toNat = v at *
  split_ifs
  · rfl
  · have h : v / 64 % 32 = v / 64 := by omega
    rw [h]
    rfl
  · have h : v / 4096 % 16 = v / 64 / 64 := by omega
    rw [h]
    rfl
  · have h : v / 262144 % 8 = v / 64 / 64 / 64 := by omega
    have h' : v / 4096 % 64 = v / 64 / 64 % 64 := by omega
    rw [h, h']
    rfl

theorem cons_lt (hn : n < 256) (h : m < n ∨ m = n ∧ x < y) : UInt8.ofNat m :: x < UInt8.ofNat n :: y := by
  rw [List.cons_lt_cons_iff]
  rcases h with h | ⟨rfl, h⟩
  · refine .inl ?_
    rw [UInt8.lt_iff_toNat_lt, UInt8.toNat_ofNat', UInt8.toNat_ofNat']
    omega
  · exact .inr ⟨rfl, h⟩

theorem append_lt (z : Bytes) (h : x < y) : z ++ x < z ++ y := by
  induction z with
  | nil => exact h
  | cons b z ih => exact List.cons_lt_cons_iff.2 (.inr ⟨rfl, ih⟩)

theorem continued_lt (h : shifted k v = shifted k w) (hvw : v < w) (x y : Bytes) :
    continued k v ++ x < continued k w ++ y := by
  induction k generalizing v w x y with
  | zero => exact absurd h (Nat.ne_of_lt hvw)
  | succ k ih =>
      rw [continued, continued, List.append_assoc, List.append_assoc]
      rcases Nat.lt_or_ge (v / 64) (w / 64) with hq | hq
      · exact ih h hq _ _
      · have hq : v / 64 = w / 64 := by omega
        rw [hq]
        exact append_lt _ (cons_lt (by omega) (.inl (by omega)))

/-- The first octet tells apart code points of different lengths, and of one length by their first digits. -/
theorem first_lt (h : v < w) (hw : w < 0x110000) : first w < 256 ∧
    (first v < first w ∨ first v = first w ∧ more v = more w ∧ shifted (more v) v = shifted (more w) w) := by
  simp only [first, more]
  split_ifs <;> simp only [shifted, mark, true_and] <;> omega

theorem encodeChar_lt {c d : Char} (h : c < d) (x y : Bytes) :
    String.utf8EncodeChar c ++ x < String.utf8EncodeChar d ++ y := by
  obtain ⟨hbound, hfirst⟩ := first_lt (v := c.val.toNat) h (codePoint_lt d)
  rw [encodeChar_eq, encodeChar_eq, List.cons_append, List.cons_append]
  refine cons_lt hbound (hfirst.imp id fun ⟨hsame, hmore, hshifted⟩ => ⟨hsame, ?_⟩)
  rw [hmore] at hshifted ⊢
  exact continued_lt hshifted h x y

theorem encodeList_lt {cs ds : List Char} (h : cs < ds) :
    cs.flatMap String.utf8EncodeChar < ds.flatMap String.utf8EncodeChar := by
  induction h with
  | nil =>
      rw [List.flatMap_nil, List.flatMap_cons, encodeChar_eq]
      exact .nil
  | rel h => exact encodeChar_lt h _ _
  | cons _ ih => exact append_lt _ ih

theorem encode_lt {s t : String} (h : s < t) : encode s < encode t := encodeList_lt (String.lt_iff.1 h)

end EntityGen.Text.Utf8
