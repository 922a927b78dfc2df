import LeastModel.Text.Utf8

/-!
# Numbers with commas

The digits of a number in groups of three, counted from the right.
-/

namespace LeastModel.Number

/-- Digits from the lowest, with a comma after every third one that another
digit follows; `k` digits of the current group have been written. -/
def groupFrom : (k : Nat) → List Char → List Char
  | _, [] => []
  | k, d :: ds => if k = 3 then ',' :: d :: groupFrom 1 ds else d :: groupFrom (k + 1) ds

/-- A natural number with commas. -/
def groupedNat (n : Nat) : List Char := (groupFrom 0 (Nat.toDigits 10 n).reverse).reverse

/-- An integer with commas, after a minus sign when it is negative. -/
def grouped : Int → Bytes
  | .ofNat n => Utf8.encode (groupedNat n)
  | .negSucc n => "-" ++ Utf8.encode (groupedNat (n + 1))

end LeastModel.Number
