import LeastModel.Text.Utf8

/-!
# Reading integers

Integers may be written in base ten, or in base two, eight or sixteen after
`0b`, `0o` (or a bare `0`) or `0x`, with a sign in front. An underscore may
stand between two digits, and between the mark of the base and a digit.
-/

namespace LeastModel.Number

/-- Why a text is no integer. -/
inductive NumeralFault where
  | malformed
  | outOfRange
  deriving DecidableEq

/-- The least natural number that is no signed integer of 64 bits. -/
def signedEnd : Nat := UInt64.size / 2

/-- The value of a digit in bases up to thirty-six. -/
def digitValue? (c : Char) : Option Nat :=
  if '0' ≤ c ∧ c ≤ '9' then some (c.toNat - 0x30)
  else if 'a' ≤ c ∧ c ≤ 'z' then some (c.toNat - 0x61 + 10)
  else if 'A' ≤ c ∧ c ≤ 'Z' then some (c.toNat - 0x41 + 10)
  else none

/-- Goes on reading digits of a base from the left, with the value `n` so far;
underscores are passed over. A value from 2^64 on ends the reading. -/
def digitsFrom (base : Nat) (n : Nat) : List Char → Except NumeralFault Nat
  | [] => .ok n
  | '_' :: cs => digitsFrom base n cs
  | c :: cs =>
    match digitValue? c with
    | none => .error .malformed
    | some d =>
      if base ≤ d then .error .malformed
      else if UInt64.size ≤ n * base + d then .error .outOfRange
      else digitsFrom base (n * base + d) cs

/-- What stood before a character, as far as underscores care. -/
inductive Before where
  | digit
  | underscore
  | neither

/-- Whether every underscore stands after a digit and before one. -/
def underscoresFit (hex : Bool) : Before → List Char → Bool
  | .underscore, [] => false
  | _, [] => true
  | before, c :: cs =>
    let lower := c.toNat ||| 0x20
    if ('0' ≤ c ∧ c ≤ '9') ∨ (hex ∧ 0x61 ≤ lower ∧ lower ≤ 0x66) then underscoresFit hex .digit cs
    else if c = '_' then
      match before with
      | .digit => underscoresFit hex .underscore cs
      | _ => false
    else
      match before with
      | .underscore => false
      | _ => underscoresFit hex .neither cs

/-- The base that a text announces, its digits, and what counts as standing
before them. -/
def announced (cs : List Char) : Nat × List Char × Before :=
  match cs with
  | '0' :: mark :: d :: ds =>
    if mark = 'b' ∨ mark = 'B' then (2, d :: ds, .digit)
    else if mark = 'o' ∨ mark = 'O' then (8, d :: ds, .digit)
    else if mark = 'x' ∨ mark = 'X' then (16, d :: ds, .digit)
    else (8, mark :: d :: ds, .digit)
  | '0' :: ds => (8, ds, .digit)
  | _ => (10, cs, .neither)

/-- An integer without a sign, below 2^64. -/
def unsigned (cs : List Char) : Except NumeralFault Nat := do
  if cs.isEmpty then throw .malformed
  let (base, digits, before) := announced cs
  let n ← digitsFrom base 0 digits
  if cs.contains '_' && !underscoresFit (base == 16) before digits then throw .malformed
  return n

/-- An integer of 64 bits with an optional sign, whose other characters are read as
a natural number by `reader`. -/
def signedBy (reader : List Char → Except NumeralFault Nat) (cs : List Char) :
    Except NumeralFault Int := do
  match cs with
  | '-' :: ds =>
    let n ← reader ds
    if signedEnd < n then throw .outOfRange else return -n
  | _ =>
    let n ← reader (if cs.head? = some '+' then cs.drop 1 else cs)
    if signedEnd ≤ n then throw .outOfRange else return n

/-- An integer with an optional sign, of 64 bits. -/
def signed (cs : List Char) : Except NumeralFault Int := signedBy unsigned cs

/-- An integer with an optional sign, of 64 bits, in a given base. -/
def signedIn (base : Nat) (cs : List Char) : Except NumeralFault Int :=
  signedBy (fun digits => if digits.isEmpty then .error .malformed else digitsFrom base 0 digits) cs

end LeastModel.Number
