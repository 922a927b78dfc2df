import LeastModel.Config.Cursor

/-!
# Anchors, tags and directives

A node can be given a name, its anchor, and a tag that tells what it is. A
directive before a document gives the version of the notation, or a short form for
the tags of the document.
-/

namespace LeastModel.Config

/-- Reads a name after its sign, for an anchor or a reference to one. -/
def anchorName : Scan Bytes := do
  let context ← Scan.mark
  Scan.skip
  let name ← Scan.readWhile isNameChar
  let c ← Scan.look 0
  if name.isEmpty || !(isGap c || c ∈ ['?', ':', ',', ']', '\x7d', '%', '@', '\x60']) then
    Scan.fail .badAnchor context
  return Utf8.encode name

namespace Tag

/-- Whether a character may stand in a tag. -/
def isUriChar (c : Char) : Bool :=
  isNameChar c || c ∈ [';', '/', '?', ':', '@', '&', '=', '+', '$', ',', '.', '%', '!', '~', '*',
    '\x27', '(', ')', '[', ']']

/-- Reads a byte that is written as two hexadecimal digits after a percent sign. -/
def escapedByte (context : Mark) : Scan UInt8 := do
  Scan.need 3
  if (← Scan.look 0) ≠ '%' then Scan.fail .badUriEscape context
  match hexDigit? (← Scan.look 1), hexDigit? (← Scan.look 2) with
  | some a, some b =>
    return UInt8.ofNat (a * 16 + b)
  | _, _ => Scan.fail .badUriEscape context

/-- Reads `n` bytes that go on with a character. -/
def escapedTail (context : Mark) : (n : Nat) → Scan Bytes
  | 0 => return []
  | n + 1 => do
    let b ← escapedByte context
    if (Utf8.tailBits? b).isNone then Scan.fail .badUriTail context
    Scan.skipMany 3
    return b :: (← escapedTail context n)

/-- Reads a character whose bytes are all escaped. -/
def escaped (context : Mark) : Scan Bytes := do
  let b ← escapedByte context
  match Encoding.lead? b with
  | none => Scan.fail .badUriLead context
  | some (width, _) =>
    Scan.skipMany 3
    return b :: (← escapedTail context (width - 1))

/-- Reads the characters of a tag, of which `before` have been read. -/
def uri (context : Mark) (before : Bytes) : Scan Bytes := do
  Scan.need 1
  let pieces ← Scan.loop (fun pieces => do
    let c ← Scan.look 0
    if !isUriChar c then return (pieces, false)
    let piece ← if c = '%' then escaped context else do Scan.skip; pure (Utf8.encode [c])
    Scan.need 1
    return (piece :: pieces, true)) []
  if pieces.isEmpty && before.isEmpty then Scan.fail .missingUri context
  return before.drop 1 ++ pieces.reverse.flatten

/-- Reads the handle of a tag: two exclamation marks, maybe with a name between
them, or only one. For a directive it must be whole. -/
def handle (directive : Bool) (context : Mark) : Scan Bytes := do
  Scan.need 1
  if (← Scan.look 0) ≠ '!' then Scan.fail .missingBang context
  Scan.skip
  let name ← Scan.readWhile isNameChar
  if (← Scan.look 0) = '!' then
    Scan.skip
    return Utf8.encode ('!' :: name ++ ['!'])
  if directive && !name.isEmpty then Scan.fail .missingBang context
  return Utf8.encode ('!' :: name)

/-- Reads a tag: its handle, empty if there is none, and the rest. -/
def read : Scan (Bytes × Bytes) := do
  let context ← Scan.mark
  Scan.need 2
  let tag ←
    if (← Scan.look 1) = '<' then
      Scan.skipMany 2
      let text ← uri context []
      if (← Scan.look 0) ≠ '>' then Scan.fail .missingAngle context
      Scan.skip
      pure ([], text)
    else
      let start ← handle false context
      if 1 < start.length && start.getLast? = some 0x21 then
        pure (start, ← uri context [])
      else
        let text ← uri context start
        pure (if text.isEmpty then ([], start) else ("!", text))
  Scan.need 1
  if !isGap (← Scan.look 0) then Scan.fail .missingBlankAfterTag context
  return tag

end Tag

/-- A directive. -/
inductive Directive where
  | version (major minor : Nat)
  /-- A short form for tags, and what it stands for. -/
  | handle (short long : Bytes)
  deriving DecidableEq

namespace Directive

/-- Reads a number of a version. -/
def versionNumber (context : Mark) : Scan Nat := do
  Scan.need 1
  let digits ← Scan.loop (fun digits => do
    let c ← Scan.look 0
    if !c.isDigit then return (digits, false)
    if 2 ≤ digits.length then Scan.fail .longVersion context
    Scan.skip
    Scan.need 1
    return (digits ++ [c], true)) []
  if digits.isEmpty then Scan.fail .missingVersion context
  return digits.foldl (fun n d => n * 10 + (d.toNat - 0x30)) 0

/-- Reads what follows the name of a directive for the version. -/
def readVersion (context : Mark) : Scan Directive := do
  Scan.skipWhile isBlank
  let major ← versionNumber context
  if (← Scan.look 0) ≠ '.' then Scan.fail .missingVersionPoint context
  Scan.skip
  return .version major (← versionNumber context)

/-- Reads what follows the name of a directive for tags. -/
def readHandle (context : Mark) : Scan Directive := do
  Scan.skipWhile isBlank
  let short ← Tag.handle true context
  Scan.need 1
  if !isBlank (← Scan.look 0) then Scan.fail .missingBlank context
  Scan.skipWhile isBlank
  let long ← Tag.uri context []
  Scan.need 1
  if !isGap (← Scan.look 0) then Scan.fail .missingBlankAfterTag context
  return .handle short long

/-- Reads the line of a directive. -/
def read : Scan Directive := do
  let context ← Scan.mark
  Scan.skip
  let name ← Scan.readWhile isNameChar
  if name.isEmpty then Scan.fail .missingDirectiveName context
  if !isGap (← Scan.look 0) then Scan.fail .badDirectiveName context
  let directive ←
    if name = ['Y', 'A', 'M', 'L'] then readVersion context
    else if name = ['T', 'A', 'G'] then readHandle context
    else Scan.fail .unknownDirective context
  Scan.skipWhile isBlank
  if (← Scan.look 0) = '#' then Scan.skipToLineEnd
  if !isLineEnd (← Scan.look 0) then Scan.fail .trailingText context
  if isBreak (← Scan.look 0) then Scan.skipLine
  return directive

end Directive

end LeastModel.Config
