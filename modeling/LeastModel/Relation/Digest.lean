import LeastModel.Text.Utf8

/-!
# The 64-bit digest of a byte string

XXH64 with seed zero. Bytes are read as little-endian words. Four lanes take in
thirty-two bytes a round; what is left is taken in by words of eight bytes, of
four bytes, and single bytes, and a last mixing spreads every bit.
-/

namespace LeastModel

/-- A function from byte strings to 64-bit words. -/
abbrev Digest := Bytes → UInt64

namespace Xxh64

def prime1 : UInt64 := 0x9E3779B185EBCA87
def prime2 : UInt64 := 0xC2B2AE3D27D4EB4F
def prime3 : UInt64 := 0x165667B19E3779F9
def prime4 : UInt64 := 0x85EBCA77C2B2AE63
def prime5 : UInt64 := 0x27D4EB2F165667C5

/-- Turns the bits of a word to the left. -/
def rotate (x : UInt64) (n : UInt64) : UInt64 := (x <<< n) ||| (x >>> (64 - n))

/-- The word whose bytes, lowest first, are `bs`. -/
def word (bs : Bytes) : UInt64 :=
  bs.foldr (fun b acc => acc * 256 + b.toUInt64) 0

/-- Cuts a byte string into words of eight bytes and the bytes that are left. -/
def words : Bytes → List UInt64 × Bytes
  | a :: b :: c :: d :: e :: f :: g :: h :: rest =>
    let (ws, tail) := words rest
    (word [a, b, c, d, e, f, g, h] :: ws, tail)
  | tail => ([], tail)

/-- Takes a word into a lane. -/
def round (lane input : UInt64) : UInt64 :=
  rotate (lane + input * prime2) 31 * prime1

/-- The four lanes. -/
structure Lanes where
  a : UInt64
  b : UInt64
  c : UInt64
  d : UInt64

/-- The lanes before the first round. -/
def Lanes.initial : Lanes := ⟨prime1 + prime2, prime2, 0, 0 - prime1⟩

/-- Takes in the words four at a time and gives back those that are left. -/
def Lanes.absorb : Lanes → List UInt64 → Lanes × List UInt64
  | l, w :: x :: y :: z :: rest =>
    absorb ⟨round l.a w, round l.b x, round l.c y, round l.d z⟩ rest
  | l, rest => (l, rest)

/-- Folds a lane into the joined value. -/
def mergeLane (acc lane : UInt64) : UInt64 :=
  (acc ^^^ round 0 lane) * prime1 + prime4

/-- Joins the four lanes. -/
def Lanes.merge (l : Lanes) : UInt64 :=
  let joined := rotate l.a 1 + rotate l.b 7 + rotate l.c 12 + rotate l.d 18
  [l.a, l.b, l.c, l.d].foldl mergeLane joined

/-- Takes in a word of eight bytes. -/
def mixWord (acc w : UInt64) : UInt64 :=
  rotate (acc ^^^ round 0 w) 27 * prime1 + prime4

/-- Takes in a word of four bytes. -/
def mixHalf (acc w : UInt64) : UInt64 :=
  rotate (acc ^^^ (w * prime1)) 23 * prime2 + prime3

/-- Takes in a byte. -/
def mixByte (acc : UInt64) (b : UInt8) : UInt64 :=
  rotate (acc ^^^ (b.toUInt64 * prime5)) 11 * prime1

/-- Takes in the fewer than eight bytes that are left at the end. -/
def mixTail (acc : UInt64) : Bytes → UInt64
  | a :: b :: c :: d :: rest => rest.foldl mixByte (mixHalf acc (word [a, b, c, d]))
  | rest => rest.foldl mixByte acc

/-- Spreads every bit over the whole word. -/
def finish (x : UInt64) : UInt64 :=
  let x := (x ^^^ (x >>> 33)) * prime2
  let x := (x ^^^ (x >>> 29)) * prime3
  x ^^^ (x >>> 32)

/-- The digest of a byte string. -/
def digest (bs : Bytes) : UInt64 :=
  let (ws, tail) := words bs
  let (start, ws) :=
    if bs.length < 32 then (prime5, ws)
    else
      let (lanes, rest) := Lanes.initial.absorb ws
      (lanes.merge, rest)
  finish (mixTail (ws.foldl mixWord (start + UInt64.ofNat bs.length)) tail)

end Xxh64

end LeastModel
