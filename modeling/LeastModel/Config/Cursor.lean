import LeastModel.Config.Fault

/-!
# Walking through the text of a configuration file

A cursor stands at a place of the text and holds the decoded characters from
there on. More are decoded when a reader asks for them, and a malformed piece is a
fault only then. After the text come end marks without number; no character of a
text can be mistaken for one, since control characters are refused.
-/

namespace LeastModel.Config

/-- The mark at which a text ends. -/
def endMark : Char := '\x00'

/-- The character that tells the order of bytes at the start of a text. -/
def byteOrderMark : Char := Char.ofNat 0xFEFF

/-- Whether a character is a blank within a line. -/
def isBlank (c : Char) : Bool := c = ' ' || c = '\t'

/-- Whether a character ends a line. -/
def isBreak (c : Char) : Bool := c.toNat ∈ [0x0A, 0x0D, 0x85, 0x2028, 0x2029]

/-- Whether a character ends a line or is the end of the text. -/
def isLineEnd (c : Char) : Bool := isBreak c || c = endMark

/-- Whether a character separates words, or ends the text. -/
def isGap (c : Char) : Bool := isBlank c || isLineEnd c

/-- Whether a character may stand in a name. -/
def isNameChar (c : Char) : Bool := c.isAlphanum || c = '_' || c = '-'

/-- The value of a hexadecimal digit. -/
def hexDigit? (c : Char) : Option Nat :=
  if '0' ≤ c ∧ c ≤ '9' then some (c.toNat - 0x30)
  else if 'a' ≤ c ∧ c ≤ 'f' then some (c.toNat - 0x61 + 10)
  else if 'A' ≤ c ∧ c ≤ 'F' then some (c.toNat - 0x41 + 10)
  else none

/-- A place in a text and what is known of the text from there on. -/
structure Cursor where
  /-- The decoded characters. -/
  ahead : List Char
  /-- What can be decoded after them. -/
  later : Pieces
  /-- The number of characters up to the end, as far as they can be decoded. -/
  left : Nat
  mark : Mark
  /-- The line ends since the last character that is no blank. -/
  breaks : Nat
  /-- Whether the characters that were decoded at one time last start with a
  byte order mark. -/
  marked : Bool
  /-- A fault that has been met when looking out for a comment. -/
  noted : Option EncodingFault := none

namespace Cursor

/-- The start of a file. -/
def start (file : Bytes) : Cursor :=
  let pieces := Pieces.of file
  { ahead := []
    later := pieces
    left := pieces.pieces.foldl (fun n piece => n + piece.length) pieces.last.length
    mark := {}
    breaks := 0
    marked := false }

/-- Decodes pieces until there are `wanted` characters or the text ends, which
adds one end mark. -/
def fill (wanted : Nat) (fault : Option EncodingFault) (ahead : List Char) :
    List (List Char) → Except EncodingFault (List Char × List (List Char))
  | [] =>
    match fault with
    | some fault => .error fault
    | none => .ok (ahead ++ [endMark], [])
  | piece :: pieces =>
    let ahead := ahead ++ piece
    if (ahead.take wanted).length = wanted then .ok (ahead, pieces)
    else fill wanted fault ahead pieces

/-- Makes sure that `wanted` characters are decoded, or that the text ends before. -/
def need (c : Cursor) (wanted : Nat) : Except DocumentFault Cursor :=
  if (c.ahead.take wanted).length = wanted then .ok c
  else
    match fill wanted c.later.fault c.ahead c.later.pieces with
    | .error fault => .error (.nowhere (.encoding fault))
    | .ok (ahead, pieces) =>
      .ok { c with
        ahead := ahead
        later := { c.later with pieces := pieces }
        marked := ahead.head? = some byteOrderMark }

/-- The same with all characters up to a malformed place. Its fault is noted. -/
def noteFault (c : Cursor) : Cursor :=
  let ahead := c.ahead ++ c.later.pieces.flatten ++ c.later.last
  { c with
    ahead := ahead
    later := ⟨[], [], c.later.fault⟩
    marked := ahead.head? = some byteOrderMark
    noted := c.later.fault }

/-- The character at a distance. -/
def look (c : Cursor) (distance : Nat) : Char := c.ahead.getD distance endMark

/-- Passes over a character that does not end a line. -/
def skip (c : Cursor) : Cursor :=
  { c with
    ahead := c.ahead.drop 1
    left := c.left - 1
    mark := { c.mark with index := c.mark.index + 1, column := c.mark.column + 1 }
    breaks := if isBlank (c.look 0) then c.breaks else 0 }

/-- The number of characters that end the line here: two for a carriage return
and a line feed, none if the line goes on. -/
def breakLength (c : Cursor) : Nat :=
  if c.look 0 = '\r' ∧ c.look 1 = '\n' then 2 else if isBreak (c.look 0) then 1 else 0

/-- Passes over the end of a line, if the line ends here. -/
def skipLine (c : Cursor) : Cursor :=
  let n := c.breakLength
  if n = 0 then c
  else
    { c with
      ahead := c.ahead.drop n
      left := c.left - n
      mark := ⟨c.mark.index + n, c.mark.line + 1, 0⟩
      breaks := c.breaks + 1 }

/-- What the end of a line stands for in a text: a line feed, but the separators
of lines and paragraphs stand for themselves. -/
def lineText (c : Cursor) : List Char :=
  if c.breakLength = 0 then []
  else if c.look 0 = Char.ofNat 0x2028 ∨ c.look 0 = Char.ofNat 0x2029 then [c.look 0]
  else ['\n']

/-- Whether a line starts here that divides documents. -/
def atDivider (c : Cursor) : Bool :=
  c.mark.column = 0 && (c.look 0 = '-' || c.look 0 = '.') && c.look 1 = c.look 0 &&
    c.look 2 = c.look 0 && isGap (c.look 3)

end Cursor

/-- A reader of a part of a text. -/
abbrev Scan := StateT Cursor (Except DocumentFault)

namespace Scan

/-- Makes sure that `wanted` characters are decoded, or that the text ends before. -/
def need (wanted : Nat) : Scan Unit := do set (← (← get).need wanted)

/-- Tells whether `wanted` characters are decoded, or the text ends before. A malformed
piece is no fault yet, but it is noted. -/
def hasAhead (wanted : Nat) : Scan Bool := do
  let c ← get
  match c.need wanted with
  | .ok c =>
    set c
    return true
  | .error _ =>
    set c.noteFault
    return false

/-- The character at a distance. -/
def look (distance : Nat) : Scan Char := return (← get).look distance

/-- The place of the cursor. -/
def mark : Scan Mark := return (← get).mark

/-- Passes over a character. -/
def skip : Scan Unit := modify Cursor.skip

/-- Passes over `n` characters. -/
def skipMany : (n : Nat) → Scan Unit
  | 0 => return
  | n + 1 => do skip; skipMany n

/-- Reads a character. -/
def read : Scan Char := do
  let c ← look 0
  skip
  return c

/-- Passes over the end of a line. -/
def skipLine : Scan Unit := do need 2; modify Cursor.skipLine

/-- Reads the end of a line. -/
def readLine : Scan (List Char) := do
  need 2
  let text := (← get).lineText
  modify Cursor.skipLine
  return text

/-- Fails within something that begins at `context`. -/
def fail {α : Type} (cause : Cause) (context : Mark) : Scan α := do
  throw (.within cause context (← mark))

/-- Repeats a step, at most `fuel` times, until it tells that nothing more is to be
done. -/
def loopFrom {σ : Type} (step : σ → Scan (σ × Bool)) : (fuel : Nat) → σ → Scan σ
  | 0, s => return s
  | fuel + 1, s => do
    let (s, goesOn) ← step s
    if goesOn then loopFrom step fuel s else return s

/-- Repeats a step that passes over a character until it tells that nothing more is
to be done. -/
def loop {σ : Type} (step : σ → Scan (σ × Bool)) (s : σ) : Scan σ := do
  loopFrom step ((← get).left + 2) s

/-- Passes over characters of a class. -/
def skipWhile (inClass : Char → Bool) : Scan Unit := do
  need 1
  let _ ← loop (σ := Unit) (fun _ => do
    if inClass (← look 0) then skip; need 1; return ((), true)
    else return ((), false)) ()

/-- Reads characters of a class. -/
def readWhile (inClass : Char → Bool) : Scan (List Char) := do
  need 1
  let text ← loop (fun text => do
    if inClass (← look 0) then
      let c ← read
      need 1
      return (c :: text, true)
    else return (text, false)) []
  return text.reverse

/-- Passes over what is left of the line. -/
def skipToLineEnd : Scan Unit := skipWhile fun c => !isLineEnd c

end Scan

end LeastModel.Config
