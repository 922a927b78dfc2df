/-!
# Byte strings and their characters

Names, values and program texts are byte strings. This file fixes how a byte
string is read as characters and how characters are written as bytes: every
byte that starts no well-formed UTF-8 sequence is read as one replacement
character, so reading never fails and never loses a byte.
-/

namespace LeastModel

/-- A byte string. -/
abbrev Bytes := List UInt8

namespace Utf8

/-- The UTF-8 form of a list of characters. -/
def encode (cs : List Char) : Bytes :=
  cs.flatMap String.utf8EncodeChar

/-- The character that a malformed byte is read as. -/
def replacement : Char := Char.ofNat 0xFFFD

/-- The low six bits of a continuation byte, or nothing for any other byte. -/
def tailBits? (b : UInt8) : Option Nat :=
  if 0x80 ≤ b.toNat ∧ b.toNat ≤ 0xBF then some (b.toNat - 0x80) else none

/-- The character with number `n`, provided `n` is a scalar value that needs as
many bytes as were spent on it, that is, one not below `least`. -/
def scalar? (least n : Nat) : Option Char :=
  if least ≤ n ∧ n.isValidChar then some (Char.ofNat n) else none

/-- The character of a two-byte sequence. -/
def two? (a b : UInt8) : Option Char := do
  if 0xC0 ≤ a.toNat ∧ a.toNat ≤ 0xDF then
    scalar? 0x80 ((a.toNat - 0xC0) * 64 + (← tailBits? b))
  else none

/-- The character of a three-byte sequence. -/
def three? (a b c : UInt8) : Option Char := do
  if 0xE0 ≤ a.toNat ∧ a.toNat ≤ 0xEF then
    scalar? 0x800 ((a.toNat - 0xE0) * 4096 + (← tailBits? b) * 64 + (← tailBits? c))
  else none

/-- The character of a four-byte sequence. -/
def four? (a b c d : UInt8) : Option Char := do
  if 0xF0 ≤ a.toNat ∧ a.toNat ≤ 0xF7 then
    scalar? 0x10000
      ((a.toNat - 0xF0) * 262144 + (← tailBits? b) * 4096 + (← tailBits? c) * 64 + (← tailBits? d))
  else none

/-- The well-formed sequence that starts with the byte `a` and goes on in `bs`:
its character, and how many bytes of `bs` belong to it. -/
def sequence? (a : UInt8) (bs : Bytes) : Option (Char × Nat) :=
  if a.toNat < 0x80 then some (Char.ofNat a.toNat, 0)
  else
    match bs with
    | b :: c :: d :: _ =>
      (two? a b).map (·, 1) <|> (three? a b c).map (·, 2) <|> (four? a b c d).map (·, 3)
    | [b, c] => (two? a b).map (·, 1) <|> (three? a b c).map (·, 2)
    | [b] => (two? a b).map (·, 1)
    | [] => none

/-- One character of a byte string together with the bytes it was read from. -/
structure Rune where
  char : Char
  bytes : Bytes
  deriving DecidableEq

/-- The characters of a byte string, after passing over its first `skip` bytes. -/
def runesFrom : (skip : Nat) → Bytes → List Rune
  | _, [] => []
  | skip + 1, _ :: bs => runesFrom skip bs
  | 0, b :: bs =>
    match sequence? b bs with
    | some (c, n) => ⟨c, b :: bs.take n⟩ :: runesFrom n bs
    | none => ⟨replacement, [b]⟩ :: runesFrom 0 bs

/-- The characters of a byte string, each with its bytes. -/
def runes (bs : Bytes) : List Rune := runesFrom 0 bs

/-- The characters of a byte string. -/
def decode (bs : Bytes) : List Char := (runes bs).map (·.char)

/-- The number of characters of a byte string. -/
def length (bs : Bytes) : Nat := (runes bs).length

/-- Whether every byte belongs to a well-formed sequence. -/
def isValid (bs : Bytes) : Bool := encode (decode bs) == bs

end Utf8

namespace Bytes

/-- The UTF-8 form of a text. -/
def ofString (s : String) : Bytes := Utf8.encode s.toList

/-- Bytewise lexicographic order: a proper initial part comes first. -/
def le : Bytes → Bytes → Bool
  | [], _ => true
  | _ :: _, [] => false
  | a :: as, b :: bs => a < b || (a == b && le as bs)

/-- The pieces one after another with `sep` between neighbours. -/
def join (sep : Bytes) (pieces : List Bytes) : Bytes :=
  List.intercalate sep pieces

/-- A natural number in decimal notation. -/
def ofNat (n : Nat) : Bytes := Utf8.encode (Nat.toDigits 10 n)

/-- An integer in decimal notation, with a minus sign when it is negative. -/
def ofInt : Int → Bytes
  | .ofNat n => ofNat n
  | .negSucc n => ofString "-" ++ ofNat (n + 1)

/-- The pieces of `bs` between line feeds. -/
def lines : Bytes → List Bytes
  | [] => [[]]
  | b :: bs =>
    if b = 0x0A then [] :: lines bs
    else
      match lines bs with
      | [] => [[b]]
      | l :: ls => (b :: l) :: ls

end Bytes

/-- Texts may be written where byte strings are meant. -/
instance : Coe String Bytes := ⟨Bytes.ofString⟩

end LeastModel
