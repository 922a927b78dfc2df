import LeastModel.Text.Utf8

/-!
# Binary fractions of fifty-three bits

The nearest number with a mantissa of fifty-three bits to a quotient of natural
numbers, computed exactly, and what is needed to show it: whole part and tenths.
A tie goes to the even neighbour.
-/

namespace LeastModel.Number

/-- The natural number nearest to `num / den`, a tie going to the even one. -/
def roundDiv (num den : Nat) : Nat :=
  let q := num / den
  let twice := 2 * (num % den)
  if twice < den then q else if den < twice then q + 1 else q + q % 2

/-- The number `mantissa · 2 ^ exponent`. -/
structure Binary where
  mantissa : Nat
  exponent : Int
  deriving DecidableEq

namespace Binary

/-- `num / den` in units of `2 ^ e`, as a quotient. -/
def scale (num den : Nat) (e : Int) : Nat × Nat :=
  if 0 ≤ e then (num, den * Nat.pow 2 e.toNat) else (num * Nat.pow 2 (-e).toNat, den)

/-- The exponent with which a quotient has a mantissa of fifty-three bits, but
none below that of the least positive number. -/
def exponentOf (num den : Nat) : Int :=
  let guess : Int := (num.log2 : Int) - den.log2 - 52
  let (n, d) := scale num den guess
  max (-1074) (if n / d < Nat.pow 2 52 then guess - 1 else guess)

/-- The number nearest to `num / den`. -/
def nearest (num den : Nat) : Binary :=
  let e := exponentOf num den
  let (n, d) := scale num den e
  ⟨roundDiv n d, e⟩

/-- The number as a quotient of natural numbers. -/
def quotient (b : Binary) : Nat × Nat :=
  if 0 ≤ b.exponent then (b.mantissa * Nat.pow 2 b.exponent.toNat, 1)
  else (b.mantissa, Nat.pow 2 (-b.exponent).toNat)

/-- Whether a number is at most another. -/
def le (a b : Binary) : Bool :=
  let (n, d) := a.quotient
  let (m, e) := b.quotient
  n * e ≤ m * d

/-- Whether two numbers are equal; their mantissas need not be. -/
def same (a b : Binary) : Bool := a.le b && b.le a

/-- Whether the number is too large to be represented. -/
def overflows (b : Binary) : Bool :=
  let (n, d) := b.quotient
  Nat.pow 2 1024 ≤ n / d

/-- The whole part. -/
def whole (b : Binary) : Nat :=
  let (n, d) := b.quotient
  n / d

/-- The number with one decimal place, a tie going to the even tenth. -/
def tenths (b : Binary) : Bytes :=
  let (n, d) := b.quotient
  let t := roundDiv (n * 10) d
  Bytes.ofNat (t / 10) ++ "." ++ Bytes.ofNat (t % 10)

end Binary

end LeastModel.Number
