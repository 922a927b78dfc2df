import LeastModel.Text.Utf8

/-!
# Numbers of variable length and counted byte strings

A number is written in base 128, the lowest digit first, and every digit but
the last has the high bit set. A byte string is written as its length followed
by its bytes, and a list as its length followed by its members, so a reader
always knows where an item ends.
-/

namespace LeastModel.Codec

/-- A number in base 128, lowest digit first. -/
def uvarint (n : Nat) : Bytes :=
  if n < 128 then [UInt8.ofNat n]
  else UInt8.ofNat (n % 128 + 128) :: uvarint (n / 128)

/-- A byte string after its length. -/
def counted (bs : Bytes) : Bytes := uvarint bs.length ++ bs

/-- A list of byte strings after its length. -/
def countedList (items : List Bytes) : Bytes :=
  uvarint items.length ++ items.flatMap counted

/-- Reads a number of at most `room` digits and gives it with the bytes after
it. The last digit that `room` allows for may only be zero or one. -/
def readDigits? : (room : Nat) → Bytes → Option (Nat × Bytes)
  | 0, _ => none
  | _, [] => none
  | room + 1, b :: bs =>
    if b.toNat < 128 then
      if room = 0 ∧ 1 < b.toNat then none else some (b.toNat, bs)
    else do
      let (high, rest) ← readDigits? room bs
      return (b.toNat - 128 + 128 * high, rest)

/-- Reads a number below 2^64. -/
def readUvarint? (bs : Bytes) : Option (Nat × Bytes) := readDigits? 10 bs

/-- Reads a byte. -/
def readByte? : Bytes → Option (UInt8 × Bytes)
  | [] => none
  | b :: bs => some (b, bs)

/-- Reads a counted byte string. -/
def readCounted? (bs : Bytes) : Option (Bytes × Bytes) := do
  let (n, rest) ← readUvarint? bs
  if rest.length < n then none else some (rest.take n, rest.drop n)

/-- Reads `n` items one after another. -/
def readMany? {α : Type} (item? : Bytes → Option (α × Bytes)) :
    (n : Nat) → Bytes → Option (List α × Bytes)
  | 0, bs => some ([], bs)
  | n + 1, bs => do
    let (x, rest) ← item? bs
    let (xs, rest) ← readMany? item? n rest
    return (x :: xs, rest)

/-- Reads a counted list. A count above the number of bytes that are left is
refused before any item is read. -/
def readList? {α : Type} (item? : Bytes → Option (α × Bytes)) (bs : Bytes) :
    Option (List α × Bytes) := do
  let (n, rest) ← readUvarint? bs
  if rest.length < n then none else readMany? item? n rest

/-- Reads a counted list of byte strings. -/
def readCountedList? (bs : Bytes) : Option (List Bytes × Bytes) := readList? readCounted? bs

end LeastModel.Codec
