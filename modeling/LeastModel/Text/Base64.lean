import LeastModel.Text.Utf8

/-!
# Bytes as letters and digits

Three bytes are written as four of sixty-four characters, and equal signs fill the
last group up to four. Line ends between characters do not count.
-/

namespace LeastModel.Text.Base64

/-- The value of a character. -/
def value? (b : UInt8) : Option Nat :=
  if 0x41 ≤ b ∧ b ≤ 0x5A then some (b.toNat - 0x41)
  else if 0x61 ≤ b ∧ b ≤ 0x7A then some (b.toNat - 0x61 + 26)
  else if 0x30 ≤ b ∧ b ≤ 0x39 then some (b.toNat - 0x30 + 52)
  else if b = 0x2B then some 62
  else if b = 0x2F then some 63
  else none

/-- The first bytes of the twenty-four bits in four values. -/
def group (count a b c d : Nat) : Bytes :=
  let bits := ((a * 64 + b) * 64 + c) * 64 + d
  [UInt8.ofNat (bits / 65536), UInt8.ofNat (bits / 256), UInt8.ofNat bits].take count

/-- The bytes that groups of four characters stand for. -/
def groups? : Bytes → Option Bytes
  | [] => some []
  | [a, b, 0x3D, 0x3D] => do return group 1 (← value? a) (← value? b) 0 0
  | [a, b, c, 0x3D] => do return group 2 (← value? a) (← value? b) (← value? c) 0
  | a :: b :: c :: d :: rest => do
    let bytes := group 3 (← value? a) (← value? b) (← value? c) (← value? d)
    return bytes ++ (← groups? rest)
  | _ => none

/-- The bytes that a text stands for, if it is well formed. -/
def decode? (text : Bytes) : Option Bytes := groups? (text.filter fun b => b ≠ 0x0A && b ≠ 0x0D)

end LeastModel.Text.Base64
