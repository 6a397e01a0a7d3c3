import EntityGen.Json.Reader

namespace EntityGen.Json

open Text.Utf8 (Bytes)

variable {α : Type}

def backslash : UInt8 := 0x5C

def hexDigit? (b : UInt8) : Option Nat :=
  let n := b.toNat
  if 0x30 ≤ n ∧ n ≤ 0x39 then some (n - 0x30)
  else if 0x41 ≤ n ∧ n ≤ 0x46 then some (n - 0x37)
  else if 0x61 ≤ n ∧ n ≤ 0x66 then some (n - 0x57)
  else none

def unit : Reader Nat
  | a :: b :: c :: d :: s =>
    match hexDigit? a, hexDigit? b, hexDigit? c, hexDigit? d with
    | some a, some b, some c, some d =>
      .ok ⟨((a * 16 + b) * 16 + c) * 16 + d, s, by simp only [List.length_cons]; omega⟩
    | _, _, _, _ => .error .malformed
  | _ => .error .ended

def isHigh (n : Nat) : Bool := 0xD800 ≤ n && n ≤ 0xDBFF
def isLow (n : Nat) : Bool := 0xDC00 ≤ n && n ≤ 0xDFFF

def octets (n : Nat) : Bytes := String.utf8EncodeChar (Char.ofNat n)

def octet (b : UInt8) (r : Reader α) : Reader α
  | [] => .error .ended
  | c :: s => if c = b then past c r s else .error .malformed

def lowUnit : Reader Nat := octet backslash (octet 0x75 unit)

def unitEscape : Reader Bytes := fun s => do
  let n ← unit s
  if isLow n.value then .error .malformed
  else if isHigh n.value then
    let m ← lowUnit n.rest
    if isLow m.value then
      return ⟨octets ((n.value - 0xD800) * 0x400 + (m.value - 0xDC00) + 0x10000), m.rest,
        Nat.lt_trans m.shorter n.shorter⟩
    else .error .malformed
  else return n.map octets

def shortEscape? (b : UInt8) : Option UInt8 :=
  if b = quote ∨ b = backslash ∨ b = 0x2F then some b
  else if b = 0x62 then some 0x8
  else if b = 0x66 then some 0xC
  else if b = 0x6E then some 0xA
  else if b = 0x72 then some 0xD
  else if b = 0x74 then some 0x9
  else none

def escape (byUnit : Reader Bytes) : Reader Bytes
  | [] => .error .ended
  | b :: s =>
    if b = 0x75 then past b byUnit s
    else match shortEscape? b with
      | some c => .ok ⟨[c], s, Nat.lt_succ_self _⟩
      | none => .error .malformed

def content (byUnit : Reader Bytes) : Reader Bytes
  | [] => .error .ended
  | b :: s =>
    if b = quote then .ok ⟨[], s, Nat.lt_succ_self _⟩
    else if b = backslash then do
      let e ← escape byUnit s
      have he := e.shorter
      let c ← content byUnit e.rest
      have := c.shorter
      return ⟨e.value ++ c.value, c.rest, by simp only [List.length_cons]; omega⟩
    else if b < 0x20 then .error .malformed
    else do
      let c ← content byUnit s
      have := c.shorter
      return ⟨b :: c.value, c.rest, by simp only [List.length_cons]; omega⟩
termination_by s => s.length

def text : Reader String := fun s => do
  let c ← content unitEscape s
  match Text.Utf8.decode c.value with
  | some v => return c.map fun _ => v
  | none => .error .malformed

def passText : Reader Unit := Reader.map (fun _ => ()) (content (Reader.map (fun _ => []) unit))

end EntityGen.Json
