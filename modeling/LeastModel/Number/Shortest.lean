import LeastModel.Number.Binary

/-!
# The shortest decimal form of a binary fraction

Of all decimal numbers that are read as a given binary fraction, the one with the
fewest digits is shown; of two with equally many digits the nearer one, and of two
that are equally near the even one. Very large and very small numbers are shown
with an exponent.
-/

namespace LeastModel.Number

/-- The number `digits · 10 ^ exponent`. -/
structure Decimal where
  digits : Nat
  exponent : Int
  deriving DecidableEq

namespace Decimal

/-- The number as a quotient of natural numbers. -/
def quotient (d : Decimal) : Nat × Nat :=
  if 0 ≤ d.exponent then (d.digits * Nat.pow 10 d.exponent.toNat, 1)
  else (d.digits, Nat.pow 10 (-d.exponent).toNat)

/-- The binary fraction as which a decimal number is read. -/
def read (d : Decimal) : Binary :=
  let (n, m) := d.quotient
  Binary.nearest n m

/-- The digits without zeros at the end, and the place of the point, counted from
the first digit. -/
def figures (d : Decimal) : List Char × Int :=
  let digits := Nat.toDigits 10 d.digits
  ((digits.reverse.dropWhile (· = '0')).reverse, digits.length + d.exponent)

/-- A number without an exponent: `digits` are the figures, and the point is at
`place`. -/
def positional (digits : List Char) (place : Int) : List Char :=
  if place ≤ 0 then ['0', '.'] ++ List.replicate (-place).toNat '0' ++ digits
  else
    let whole := digits.take place.toNat
    let fraction := digits.drop place.toNat
    whole ++ List.replicate (place.toNat - whole.length) '0' ++
      (if fraction.isEmpty then [] else '.' :: fraction)

/-- A number with an exponent of at least two digits. -/
def scientific (digits : List Char) (place : Int) : List Char :=
  let exponent := place - 1
  let figures := Nat.toDigits 10 exponent.natAbs
  digits.take 1 ++ (if digits.length ≤ 1 then [] else '.' :: digits.drop 1) ++
    ['e', if exponent < 0 then '-' else '+'] ++
    List.replicate (2 - figures.length) '0' ++ figures

/-- A number that is not zero, as it is shown: from a ten-thousandth on and below a
million without an exponent. -/
def render (d : Decimal) : List Char :=
  let (digits, place) := d.figures
  if -4 < place ∧ place ≤ 6 then positional digits place else scientific digits place

end Decimal

namespace Binary

/-- The least `k` such that the number is below `10 ^ k`. The number is not zero. -/
def magnitude (b : Binary) : Int :=
  let (n, d) := b.quotient
  if d ≤ n then (Nat.toDigits 10 (n / d)).length
  else 1 - ((Nat.toDigits 10 ((d - 1) / n)).length : Int)

/-- The whole part of the number in units of `10 ^ e`. -/
def floorAt (b : Binary) (e : Int) : Nat :=
  let (n, d) := b.quotient
  if 0 ≤ e then n / (d * Nat.pow 10 e.toNat) else n * Nat.pow 10 (-e).toNat / d

/-- The nearer of two neighbours of the number, `f` and `f + 1` in units of
`10 ^ e`. -/
def nearer (b : Binary) (f : Nat) (e : Int) : Nat :=
  let (n, d) := b.quotient
  let (m, c) := Decimal.quotient ⟨2 * f + 1, e⟩
  let twice := 2 * n * c
  let middle := m * d
  if twice < middle then f else if middle < twice then f + 1 else f + f % 2

/-- The neighbour of the number in units of `10 ^ e` that is read as it. -/
def neighbour? (b : Binary) (e : Int) : Option Decimal :=
  let f := b.floorAt e
  let below : Decimal := ⟨f, e⟩
  let above : Decimal := ⟨f + 1, e⟩
  match below.read.same b, above.read.same b with
  | true, true => some ⟨b.nearer f e, e⟩
  | true, false => some below
  | false, true => some above
  | false, false => none

/-- The number itself in decimal notation. -/
def exact (b : Binary) : Decimal :=
  if 0 ≤ b.exponent then ⟨b.mantissa * Nat.pow 2 b.exponent.toNat, 0⟩
  else ⟨b.mantissa * Nat.pow 5 (-b.exponent).toNat, b.exponent⟩

/-- The shortest decimal number that is read as the number, which is not zero. -/
def shortest (b : Binary) : Decimal :=
  let digitCounts := (List.range 18).drop 1
  (digitCounts.findSome? fun (n : Nat) => b.neighbour? (b.magnitude - n)).getD b.exact

/-- The number in its shortest form. -/
def render (b : Binary) : Bytes :=
  if b.mantissa = 0 then "0" else Utf8.encode b.shortest.render

end Binary

end LeastModel.Number
