import LeastModel.Text.Utf8

/-!
# Coloured texts

A coloured text stands between two escape sequences, one that sets the colour
and one that takes it back. Without colours a text stands as it is.
-/

namespace LeastModel.Text

/-- The colours in use. -/
inductive Colour where
  | red
  | green
  | yellow
  | blue
  | magenta
  | cyan
  deriving DecidableEq

/-- The number that sets a colour. -/
def Colour.code : Colour → Nat
  | .red => 31
  | .green => 32
  | .yellow => 33
  | .blue => 34
  | .magenta => 35
  | .cyan => 36

/-- The escape sequence with a given number. -/
def escape (n : Nat) : Bytes := "\x1b[" ++ Bytes.ofNat n ++ "m"

/-- A text in a colour. -/
def Colour.dye (c : Colour) (text : Bytes) : Bytes := escape c.code ++ text ++ escape 0

/-- A text in a colour, if colours are on. -/
def paint (coloured : Bool) (c : Colour) (text : Bytes) : Bytes :=
  if coloured then c.dye text else text

end LeastModel.Text
