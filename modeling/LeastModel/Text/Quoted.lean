import LeastModel.Text.Printable
import LeastModel.Text.Utf8

/-!
# Quoted texts

The quoted form of a byte string shows every printable character as itself and
everything else by an escape, so that two different byte strings never share a
quoted form.
-/

namespace LeastModel.Text

/-- The lower-case hexadecimal digits of `n`, filled up with zeros to `width`. -/
def hexDigits (width n : Nat) : List Char :=
  let digits := Nat.toDigits 16 n
  List.replicate (width - digits.length) '0' ++ digits

/-- The one-letter escapes of control characters. -/
def controlEscape? (c : Char) : Option Char :=
  match c.toNat with
  | 0x07 => some 'a'
  | 0x08 => some 'b'
  | 0x0C => some 'f'
  | 0x0A => some 'n'
  | 0x0D => some 'r'
  | 0x09 => some 't'
  | 0x0B => some 'v'
  | _ => none

/-- A character as it stands between quotes of the kind `quote`. -/
def escapeChar (quote c : Char) : List Char :=
  if c = quote ∨ c = '\x5c' then ['\x5c', c]
  else if isPrintable c then [c]
  else
    match controlEscape? c with
    | some letter => ['\x5c', letter]
    | none =>
      if c.toNat < 0x20 ∨ c.toNat = 0x7F then '\x5c' :: 'x' :: hexDigits 2 c.toNat
      else if c.toNat < 0x10000 then '\x5c' :: 'u' :: hexDigits 4 c.toNat
      else '\x5c' :: 'U' :: hexDigits 8 c.toNat

/-- A character read from a byte string, between double quotes. A byte that
belongs to no character is shown by its number. -/
def escapeRune (r : Utf8.Rune) : List Char :=
  match r.bytes with
  | [b] =>
    if b.toNat < 0x80 then escapeChar '\x22' r.char
    else '\x5c' :: 'x' :: hexDigits 2 b.toNat
  | _ => escapeChar '\x22' r.char

/-- A byte string between double quotes. -/
def quoted (bs : Bytes) : Bytes :=
  Utf8.encode ('\x22' :: (Utf8.runes bs).flatMap escapeRune ++ ['\x22'])

/-- A character between single quotes. -/
def quotedChar (c : Char) : Bytes :=
  Utf8.encode ('\x27' :: escapeChar '\x27' c ++ ['\x27'])

end LeastModel.Text
