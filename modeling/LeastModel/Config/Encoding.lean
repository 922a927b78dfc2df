import LeastModel.Text.Utf8

/-!
# The characters of a configuration file

A file is written in UTF-8, or in UTF-16 if it starts with that encoding's byte
order mark. It is decoded piece by piece: a piece holds the characters that are
complete within the next 512 bytes. A file with a malformed place is good up to
the piece in which that place lies, so a reader that stops earlier never sees the
fault. Only where one looks out for a comment is the fault put off.
-/

namespace LeastModel.Config

/-- Why bytes are no characters of a configuration file. -/
inductive EncodingFault where
  | badLead
  | badTail
  | incomplete
  | badLength
  | noCharacter
  | unexpectedLow
  | missingLow
  | incompleteUnit
  | incompletePair
  | controlCharacter
  deriving DecidableEq

/-- The wording of a fault. -/
def EncodingFault.wording : EncodingFault → Bytes
  | badLead => "invalid leading UTF-8 octet"
  | badTail => "invalid trailing UTF-8 octet"
  | incomplete => "incomplete UTF-8 octet sequence"
  | badLength => "invalid length of a UTF-8 sequence"
  | noCharacter => "invalid Unicode character"
  | unexpectedLow => "unexpected low surrogate area"
  | missingLow => "expected low surrogate area"
  | incompleteUnit => "incomplete UTF-16 character"
  | incompletePair => "incomplete UTF-16 surrogate pair"
  | controlCharacter => "control characters are not allowed"

/-- How characters are written as bytes. -/
inductive Encoding where
  | utf8
  | utf16 (bigEndian : Bool)
  deriving DecidableEq

namespace Encoding

/-- The encoding of a file, and the length of its byte order mark. -/
def detect : Bytes → Encoding × Nat
  | 0xFF :: 0xFE :: _ => (utf16 false, 2)
  | 0xFE :: 0xFF :: _ => (utf16 true, 2)
  | 0xEF :: 0xBB :: 0xBF :: _ => (utf8, 3)
  | _ => (utf8, 0)

/-- What stands at the front of some bytes. -/
inductive Front where
  /-- A character and the number of its bytes. -/
  | complete (c : Char) (width : Nat)
  /-- A character whose last bytes are missing, and the fault if none follow. -/
  | partly (fault : EncodingFault)

/-- Whether a character may stand in a configuration file. -/
def isAllowed (n : Nat) : Bool :=
  n = 0x09 || n = 0x0A || n = 0x0D || (0x20 ≤ n && n ≤ 0x7E) || n = 0x85 ||
    (0xA0 ≤ n && n ≤ 0xD7FF) || (0xE000 ≤ n && n ≤ 0xFFFD) || (0x10000 ≤ n && n ≤ 0x10FFFF)

/-- A character with its number and width, if it may stand in a file. -/
def allowed (n width : Nat) : Except EncodingFault Front :=
  if isAllowed n then .ok (.complete (Char.ofNat n) width) else .error .controlCharacter

/-- The length of the sequence that a lead byte announces, and its own bits. -/
def lead? (b : UInt8) : Option (Nat × Nat) :=
  if b < 0x80 then some (1, b.toNat)
  else if 0xC0 ≤ b ∧ b < 0xE0 then some (2, b.toNat - 0xC0)
  else if 0xE0 ≤ b ∧ b < 0xF0 then some (3, b.toNat - 0xE0)
  else if 0xF0 ≤ b ∧ b < 0xF8 then some (4, b.toNat - 0xF0)
  else none

/-- The number spelled by the bits `n` of a lead byte and the following bytes. -/
def tail (n : Nat) : Bytes → Except EncodingFault Nat
  | [] => .ok n
  | b :: bs =>
    match Utf8.tailBits? b with
    | some bits => tail (n * 64 + bits) bs
    | none => .error .badTail

/-- The least number that needs a sequence of a length. -/
def least (width : Nat) : Nat :=
  if width = 1 then 0 else if width = 2 then 0x80 else if width = 3 then 0x800 else 0x10000

/-- The character in UTF-8 at the front of some bytes, of which `b` is the first. -/
def frontUtf8 (b : UInt8) (bs : Bytes) : Except EncodingFault Front := do
  match lead? b with
  | none => throw .badLead
  | some (width, bits) =>
    if bs.length + 1 < width then return .partly .incomplete
    let n ← tail bits (bs.take (width - 1))
    if n < least width then throw .badLength
    if !n.isValidChar then throw .noCharacter
    allowed n width

/-- The unit of UTF-16 in two bytes. -/
def unit (bigEndian : Bool) (a b : UInt8) : Nat :=
  if bigEndian then a.toNat * 256 + b.toNat else b.toNat * 256 + a.toNat

/-- The character in UTF-16 at the front of some bytes, of which `a` is the first. -/
def frontUtf16 (bigEndian : Bool) (a : UInt8) : Bytes → Except EncodingFault Front
  | [] => .ok (.partly .incompleteUnit)
  | b :: bs =>
    let first := unit bigEndian a b
    if 0xDC00 ≤ first ∧ first ≤ 0xDFFF then .error .unexpectedLow
    else if 0xD800 ≤ first ∧ first ≤ 0xDBFF then
      match bs with
      | c :: d :: _ =>
        let second := unit bigEndian c d
        if 0xDC00 ≤ second ∧ second ≤ 0xDFFF then
          allowed (0x10000 + (first - 0xD800) * 0x400 + (second - 0xDC00)) 4
        else .error .missingLow
      | _ => .ok (.partly .incompletePair)
    else allowed first 2

/-- The character at the front of some bytes. -/
def front (encoding : Encoding) (b : UInt8) (bs : Bytes) : Except EncodingFault Front :=
  match encoding with
  | utf8 => frontUtf8 b bs
  | utf16 bigEndian => frontUtf16 bigEndian b bs

/-- Where the decoding of some bytes stops. -/
inductive Stop where
  | atEnd
  /-- Before a character whose last bytes are missing: what is left, and the fault it
  is if nothing follows. -/
  | before (left : Bytes) (fault : EncodingFault)
  | malformed (fault : EncodingFault)

/-- The characters of some bytes, after passing over the first `skip` of them, up to
where the decoding stops. -/
def decodeFrom (encoding : Encoding) : (skip : Nat) → Bytes → List Char × Stop
  | _, [] => ([], .atEnd)
  | skip + 1, _ :: bs => decodeFrom encoding skip bs
  | 0, b :: bs =>
    match front encoding b bs with
    | .error fault => ([], .malformed fault)
    | .ok (.partly fault) => ([], .before (b :: bs) fault)
    | .ok (.complete c width) =>
      let (cs, stop) := decodeFrom encoding (width - 1) bs
      (c :: cs, stop)

end Encoding

/-- The pieces of a file, and the fault after the last of them, if there is one. -/
structure Pieces where
  pieces : List (List Char)
  /-- The characters before the fault, in the piece in which it lies. -/
  last : List Char
  fault : Option EncodingFault

/-- The number of bytes that are decoded at once. -/
def pieceSize : Nat := 512

/-- The pieces of some bytes, at most `fuel` of them; the first takes `size` bytes. -/
def piecesFrom (encoding : Encoding) : (fuel size : Nat) → Bytes → Pieces
  | 0, _, _ => ⟨[], [], none⟩
  | fuel + 1, size, bs =>
    if bs.isEmpty then ⟨[], [], none⟩
    else
      let further (cs : List Char) (left : Bytes) : Pieces :=
        let rest := piecesFrom encoding fuel pieceSize left
        { rest with pieces := cs :: rest.pieces }
      match encoding.decodeFrom 0 (bs.take size) with
      | (cs, .malformed fault) => ⟨[], cs, some fault⟩
      | (cs, .atEnd) => further cs (bs.drop size)
      | (cs, .before left fault) =>
        if cs.isEmpty then ⟨[], [], some fault⟩ else further cs (left ++ bs.drop size)

/-- The pieces of a file, without its byte order mark. -/
def Pieces.of (file : Bytes) : Pieces :=
  let (encoding, mark) := Encoding.detect file
  piecesFrom encoding file.length (pieceSize - mark) (file.drop mark)

end LeastModel.Config
