import LeastModel.Text.Ranges
import LeastModel.Text.Utf8

/-!
# White space

The characters with the Unicode property White_Space, and the two operations on
byte strings that depend on them: removing white space at both ends, and
splitting at runs of it.
-/

namespace LeastModel.Text

/-- The code points with the property White_Space. -/
def blankRanges : Ranges :=
  [(0x9, 0xD), (0x20, 0x20), (0x85, 0x85), (0xA0, 0xA0), (0x1680, 0x1680), (0x2000, 0x200A),
   (0x2028, 0x2029), (0x202F, 0x202F), (0x205F, 0x205F), (0x3000, 0x3000)]

/-- Whether a character is white space. -/
def isBlank (c : Char) : Bool := blankRanges.contains c.toNat

/-- The byte string without the white space at its two ends. -/
def trim (bs : Bytes) : Bytes :=
  let inner := (Utf8.runes bs).dropWhile (isBlank ·.char)
  ((inner.reverse.dropWhile (isBlank ·.char)).reverse).flatMap (·.bytes)

/-- The maximal runs of characters that are not white space; `current` is the
run that is being read. -/
def fieldsFrom (current : Bytes) : List Utf8.Rune → List Bytes
  | [] => if current.isEmpty then [] else [current]
  | r :: rs =>
    if isBlank r.char then
      if current.isEmpty then fieldsFrom [] rs else current :: fieldsFrom [] rs
    else fieldsFrom (current ++ r.bytes) rs

/-- The parts of a byte string between white space. -/
def fields (bs : Bytes) : List Bytes := fieldsFrom [] (Utf8.runes bs)

end LeastModel.Text
