import LeastModel.Config.Date
import LeastModel.Number.Binary
import LeastModel.Number.Numeral

/-!
# What a plain scalar of a configuration file means

A scalar without quotes may be nothing, a truth value, an integer, a number with
a fraction, a date or a text, by its looks.
-/

namespace LeastModel.Config

/-- A number that need not be whole. -/
inductive Real where
  | finite (negative : Bool) (magnitude : Number.Binary)
  | infinite (negative : Bool)
  | undefined
  deriving DecidableEq

/-- The meaning of a scalar. -/
inductive Scalar where
  | nothing
  | truth (b : Bool)
  | integer (n : Int)
  | real (x : Real)
  | date (d : Date)
  | text (s : Bytes)
  deriving DecidableEq

/-- The tag under which a meaning is reported. -/
def Scalar.tag : Scalar → Bytes
  | nothing => "!!null"
  | truth _ => "!!bool"
  | integer _ => "!!int"
  | real _ => "!!float"
  | date _ => "!!timestamp"
  | text _ => "!!str"

/-- The scalars with a fixed meaning. -/
def fixed? (s : String) : Option Scalar :=
  if s ∈ ["", "~", "null", "Null", "NULL"] then some .nothing
  else if s ∈ ["true", "True", "TRUE"] then some (.truth true)
  else if s ∈ ["false", "False", "FALSE"] then some (.truth false)
  else if s ∈ [".nan", ".NaN", ".NAN"] then some (.real .undefined)
  else if s ∈ [".inf", ".Inf", ".INF", "+.inf", "+.Inf", "+.INF"] then
    some (.real (.infinite false))
  else if s ∈ ["-.inf", "-.Inf", "-.INF"] then some (.real (.infinite true))
  else none

/-- The exponent at the end of a decimal number; none if the rest is no exponent. -/
def exponent? (cs : List Char) : Option Int :=
  match cs with
  | [] => some 0
  | e :: cs =>
    if e = 'e' ∨ e = 'E' then
      let (negative, digits) :=
        match cs with
        | '-' :: ds => (true, ds)
        | '+' :: ds => (false, ds)
        | _ => (false, cs)
      if !digits.isEmpty && digits.all Char.isDigit then
        some (if negative then -(decimal digits : Int) else decimal digits)
      else none
    else none

/-- The number `digits · 10 ^ e`, unless it is too large. -/
def scaled? (digits : Nat) (e : Int) : Option Number.Binary :=
  if digits = 0 then some ⟨0, 0⟩
  else
    let size : Int := (Nat.toDigits 10 digits).length + e
    if 400 < size then none
    else if size < -400 then some ⟨0, 0⟩
    else
      let b :=
        if 0 ≤ e then Number.Binary.nearest (digits * Nat.pow 10 e.toNat) 1
        else Number.Binary.nearest digits (Nat.pow 10 (-e).toNat)
      if b.overflows then none else some b

/-- A decimal number with an optional sign, point and exponent. -/
def real? (cs : List Char) : Option Real := do
  let (negative, cs) :=
    match cs with
    | '-' :: ds => (true, ds)
    | '+' :: ds => (false, ds)
    | _ => (false, cs)
  let whole := cs.takeWhile Char.isDigit
  let rest := cs.drop whole.length
  let (fraction, rest) :=
    match rest with
    | '.' :: ds => (ds.takeWhile Char.isDigit, ds.dropWhile Char.isDigit)
    | _ => ([], rest)
  if whole.isEmpty && fraction.isEmpty then none
  let e ← exponent? rest
  let magnitude ← scaled? (decimal (whole ++ fraction)) (e - fraction.length)
  return .finite negative magnitude

/-- A decimal number that starts with a point, in which underscores may stand
between digits. -/
def pointed? (cs : List Char) : Option Real :=
  if cs.contains '_' && !Number.underscoresFit false .neither cs then none
  else real? (cs.filter (· != '_'))

/-- An integer in base two or eight with a sign after the mark of the base. -/
def signedAfterMark? : List Char → Option Int
  | '0' :: 'b' :: cs => (Number.signedIn 2 cs).toOption
  | '0' :: 'o' :: cs => (Number.signedIn 8 cs).toOption
  | _ => none

/-- The meaning of a text that starts like a number. Underscores do not count. -/
def numeric (cs : List Char) : Scalar :=
  let digits := cs.filter (· != '_')
  match Number.signed digits, Number.unsigned digits, real? digits, signedAfterMark? digits with
  | .ok n, _, _, _ => .integer n
  | _, .ok n, _, _ => .integer n
  | _, _, some x, _ => .real x
  | _, _, _, some n => .integer n
  | _, _, _, none => .text (Utf8.encode cs)

/-- The meaning of a plain scalar; `dates` tells whether it may be a date. -/
def Scalar.ofPlain (dates : Bool) (cs : List Char) : Scalar :=
  match fixed? (String.ofList cs) with
  | some meaning => meaning
  | none =>
    match cs with
    | [] => .nothing
    | c :: _ =>
      if c = '.' then
        match pointed? cs with
        | some x => .real x
        | none => .text (Utf8.encode cs)
      else if c = '+' ∨ c = '-' ∨ c.isDigit then
        match (if dates then date? cs else none) with
        | some d => .date d
        | none => numeric cs
      else .text (Utf8.encode cs)

/-- An integer of 64 bits as a number that need not be whole. -/
def Scalar.asReal? : Scalar → Option Real
  | .integer n =>
    if n < Number.signedEnd then
      some (.finite (n < 0) (if n = 0 then ⟨0, 0⟩ else Number.Binary.nearest n.natAbs 1))
    else none
  | _ => none

/-- The integer of 64 bits that a number becomes where an integer is wanted: its
whole part. A number above 2^63 becomes none, and one that does not fit
otherwise becomes the least integer. -/
def Real.toInt? : Real → Option Int
  | .undefined => none
  | .infinite negative => if negative then some (-Number.signedEnd) else none
  | .finite true magnitude =>
    some (if magnitude.whole ≤ Number.signedEnd then -magnitude.whole else -Number.signedEnd)
  | .finite false magnitude =>
    let (n, d) := magnitude.quotient
    if Number.signedEnd * d < n then none
    else
      some (if magnitude.whole < Number.signedEnd then magnitude.whole else -Number.signedEnd)

end LeastModel.Config
