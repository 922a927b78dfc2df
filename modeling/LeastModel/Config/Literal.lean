import LeastModel.Config.Cursor

/-!
# Scalars as they are written

A scalar is written plainly, between quotes, or as a block of indented lines. A
plain or quoted scalar may go on over several lines: one line end then counts as a
space, and of more in a row each but the first counts as a line feed. Separators
of lines and paragraphs count as themselves.
-/

namespace LeastModel.Config

/-- What has been read between two words of a scalar. -/
structure Gap where
  /-- The blanks before the first line end, the latest first. -/
  blanks : List Char := []
  /-- Whether the line has ended. -/
  broken : Bool := false
  /-- The first line end. -/
  first : List Char := []
  /-- The further line ends, the latest first. -/
  more : List Char := []

namespace Gap

/-- What a gap stands for, the last character first. -/
def text (g : Gap) : List Char :=
  if g.broken then
    if g.first = ['\n'] then if g.more.isEmpty then [' '] else g.more
    else g.more ++ g.first.reverse
  else g.blanks

/-- Reads blanks and line ends. Before column `least`, a tabulator on a later
line is a fault of what begins at `context`. -/
def read (context : Mark) (least : Nat) (gap : Gap) : Scan Gap :=
  Scan.loop (fun gap => do
    let c ← Scan.look 0
    if isBlank c then
      if gap.broken && c = '\t' && (← Scan.mark).column < least then
        Scan.fail .strayTab context
      Scan.skip
      Scan.need 1
      return (if gap.broken then gap else { gap with blanks := c :: gap.blanks }, true)
    else if isBreak c then
      let line ← Scan.readLine
      Scan.need 1
      return (if gap.broken then { gap with more := line ++ gap.more }
        else { gap with blanks := [], broken := true, first := line }, true)
    else return (gap, false)) gap

end Gap

namespace Plain

/-- Whether a plain scalar ends before a character. Between brackets it also ends
before the signs that structure what is inside. -/
def stops (inside : Bool) (c next : Char) : Bool :=
  isGap c || (c = ':' && isGap next) ||
    (inside && c ∈ [',', '?', '[', ']', '\x7b', '\x7d'])

/-- What has been read of a plain scalar: its text, the last character first, and
the gap after it. -/
structure Progress where
  text : List Char := []
  gap : Gap := {}

/-- Reads a word and the gap after it, unless the scalar is over. -/
def word (inside : Bool) (context : Mark) (least : Nat) (p : Progress) :
    Scan (Progress × Bool) := do
  Scan.need 4
  if (← get).atDivider || (← Scan.look 0) = '#' then return (p, false)
  let p ← Scan.loop (fun p => do
    if stops inside (← Scan.look 0) (← Scan.look 1) then return (p, false)
    else
      let c ← Scan.read
      Scan.need 2
      return ({ text := c :: (p.gap.text ++ p.text) }, true)) p
  let c ← Scan.look 0
  if !(isBlank c || isBreak c) then return (p, false)
  Scan.need 1
  let gap ← p.gap.read context least
  return ({ p with gap := gap }, inside || least ≤ (← Scan.mark).column)

/-- Reads a plain scalar: its text, and whether a line ended after it. Outside of
brackets its later lines start at column `least` or further right. -/
def read (inside : Bool) (least : Nat) : Scan (List Char × Bool) := do
  let p ← Scan.loop (word inside (← Scan.mark) least) {}
  return (p.text.reverse, p.gap.broken)

end Plain

namespace Quote

/-- The character that a one-letter escape stands for. -/
def letter? (c : Char) : Option Char :=
  match c with
  | '0' => some '\x00'
  | 'a' => some '\x07'
  | 'b' => some '\x08'
  | 't' | '\t' => some '\t'
  | 'n' => some '\n'
  | 'v' => some '\x0b'
  | 'f' => some '\x0c'
  | 'r' => some '\r'
  | 'e' => some '\x1b'
  | ' ' => some ' '
  | '\x22' => some '\x22'
  | '\x27' => some '\x27'
  | '\x5c' => some '\x5c'
  | 'N' => some (Char.ofNat 0x85)
  | '_' => some (Char.ofNat 0xA0)
  | 'L' => some (Char.ofNat 0x2028)
  | 'P' => some (Char.ofNat 0x2029)
  | _ => none

/-- The number of digits after an escape that gives a number. -/
def digits? (c : Char) : Option Nat :=
  match c with
  | 'x' => some 2
  | 'u' => some 4
  | 'U' => some 8
  | _ => none

/-- The value of hexadecimal digits. -/
def number? (digits : List Char) : Option Nat :=
  digits.foldl (fun n d => do return (← n) * 16 + (← hexDigit? d)) (some 0)

/-- Reads an escape in a scalar that begins at `context`. -/
def escape (context : Mark) : Scan Char := do
  let sign ← Scan.look 1
  match letter? sign, digits? sign with
  | some c, _ =>
    Scan.skipMany 2
    return c
  | none, some n =>
    Scan.skipMany 2
    Scan.need n
    match number? ((List.range n).map (← get).look) with
    | none => Scan.fail .badEscapeDigits context
    | some value =>
      if value.isValidChar then
        Scan.skipMany n
        return Char.ofNat value
      else Scan.fail .badEscapeCode context
  | none, none => Scan.fail .unknownEscape context

/-- Reads a character between single or double quotes, if the word goes on. The
text so far has its last character first; it is told too whether a backslash
has joined the next line to this one. -/
def character (double : Bool) (context : Mark) (read : List Char × Bool) :
    Scan ((List Char × Bool) × Bool) := do
  let (text, _) := read
  let c ← Scan.look 0
  let next ← Scan.look 1
  if isGap c then return (read, false)
  if !double && c = '\x27' && next = '\x27' then
    Scan.skipMany 2
    Scan.need 2
    return ((c :: text, false), true)
  if c = (if double then '\x22' else '\x27') then return (read, false)
  if double && c = '\x5c' && isBreak next then
    Scan.need 3
    Scan.skip
    Scan.skipLine
    return ((text, true), false)
  if double && c = '\x5c' then
    let c ← escape context
    Scan.need 2
    return ((c :: text, false), true)
  let c ← Scan.read
  Scan.need 2
  return ((c :: text, false), true)

/-- Reads a word between quotes and the gap after it, unless the closing quote
follows. -/
def word (double : Bool) (context : Mark) (text : List Char) : Scan (List Char × Bool) := do
  Scan.need 4
  if (← get).atDivider then Scan.fail .quotedDivider context
  if (← Scan.look 0) = endMark then Scan.fail .openQuote context
  let (text, joined) ← Scan.loop (character double context) (text, false)
  Scan.need 1
  if (← Scan.look 0) = (if double then '\x22' else '\x27') then return (text, false)
  let gap ← Gap.read context 0 { broken := joined }
  return (gap.text ++ text, true)

/-- Reads a quoted scalar from its opening quote on. -/
def read (double : Bool) : Scan (List Char) := do
  let context ← Scan.mark
  Scan.skip
  let text ← Scan.loop (word double context) []
  Scan.skip
  return text.reverse

end Quote

namespace Block

/-- What becomes of the line ends after the last line of a block. -/
inductive Chomping where
  | strip
  | clip
  | keep
  deriving DecidableEq

/-- Reads a sign that tells what becomes of the last line ends. -/
def chomping? : Scan (Option Chomping) := do
  Scan.need 1
  match ← Scan.look 0 with
  | '+' => Scan.skip; return some .keep
  | '-' => Scan.skip; return some .strip
  | _ => return none

/-- Reads a digit that tells the indentation. -/
def indentation? (context : Mark) : Scan (Option Nat) := do
  Scan.need 1
  let c ← Scan.look 0
  if c = '0' then Scan.fail .zeroIndentation context
  else if c.isDigit then
    Scan.skip
    return some (c.toNat - 0x30)
  else return none

/-- Reads what stands after the sign of a block on its line. -/
def header (context : Mark) : Scan (Chomping × Option Nat) := do
  let (chomping, indentation) ←
    match ← chomping? with
    | some chomping => pure (chomping, ← indentation? context)
    | none =>
      match ← indentation? context with
      | some n => pure ((← chomping?).getD .clip, some n)
      | none => pure (.clip, none)
  Scan.skipWhile isBlank
  if (← Scan.look 0) = '#' then Scan.skipToLineEnd
  if !isLineEnd (← Scan.look 0) then Scan.fail .trailingText context
  if isBreak (← Scan.look 0) then Scan.skipLine
  return (chomping, indentation)

/-- Passes over the indentation of a line, and over empty lines. The indentation is
`indent`, or any if that is none. Gives the ends of the empty lines, the latest
first, and the furthest column reached. -/
def emptyLines (context : Mark) (indent : Option Nat) : Scan (List Char × Nat) :=
  Scan.loop (fun (breaks, furthest) => do
    let indented (column : Nat) : Bool := indent.all (column < ·)
    Scan.need 1
    let _ ← Scan.loop (fun () => do
      if indented (← Scan.mark).column && (← Scan.look 0) = ' ' then
        Scan.skip
        Scan.need 1
        return ((), true)
      else return ((), false)) ()
    let column := (← Scan.mark).column
    let furthest := max furthest column
    if indented column && (← Scan.look 0) = '\t' then Scan.fail .strayBlockTab context
    if isBreak (← Scan.look 0) then
      let line ← Scan.readLine
      return ((line ++ breaks, furthest), true)
    else return ((breaks, furthest), false)) ([], 0)

/-- What has been read of a block: its text, the last character first, whether its
last line starts with a blank, the end of that line, and the ends of the empty
lines after it, the latest first. -/
structure Progress where
  text : List Char := []
  blank : Bool := false
  lineEnd : List Char := []
  empties : List Char := []

/-- Reads a line of a block whose indentation is `indent`. In a folded block
the end of a line counts as a space between lines that start with no blank. -/
def line (folded : Bool) (context : Mark) (indent : Nat) (p : Progress) :
    Scan (Progress × Bool) := do
  if (← Scan.mark).column ≠ indent || (← Scan.look 0) = endMark then return (p, false)
  let blank := isBlank (← Scan.look 0)
  let joint :=
    if folded && !p.blank && !blank && p.lineEnd = ['\n'] then
      if p.empties.isEmpty then [' '] else []
    else p.lineEnd
  let text := p.empties ++ joint.reverse ++ p.text
  let words ← Scan.readWhile fun c => !isLineEnd c
  let lineEnd ← Scan.readLine
  let (empties, _) ← emptyLines context (some indent)
  return (⟨words.reverse ++ text, blank, lineEnd, empties⟩, true)

/-- Reads a block from its sign on. What holds it is indented by `outer`; without
a digit its first line that is not empty tells its indentation, which is at
least `outer + 1`. -/
def read (folded : Bool) (outer : Int) : Scan (List Char) := do
  let context ← Scan.mark
  Scan.skip
  let (chomping, digit) ← header context
  let given := digit.map fun n => n + outer.toNat
  let (empties, furthest) ← emptyLines context given
  let indent := given.getD (max furthest (max (outer + 1).toNat 1))
  Scan.need 1
  let p ← Scan.loop (line folded context indent) { empties := empties }
  let text := if chomping = .strip then p.text else p.lineEnd.reverse ++ p.text
  let text := if chomping = .keep then p.empties ++ text else text
  return text.reverse

end Block

end LeastModel.Config
