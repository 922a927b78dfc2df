import LeastModel.Config.Cursor

/-!
# What stands between tokens

Between tokens there are blanks, line ends and comments. Where indentation matters
a tabulator does not count as a blank, except before a comment that follows
another one.
-/

namespace LeastModel.Config

namespace Comment

/-- How far one looks for a comment. -/
def reach : Nat := 512

/-- The distance to the first character from `distance` on, at most `fuel` further,
that is not passed over; none if there is no such character within reach. -/
def findFrom (passes : Char → Bool) : (fuel distance : Nat) → Scan (Option Nat)
  | 0, _ => return none
  | fuel + 1, distance => do
    if !(← Scan.hasAhead (distance + 1)) then return none
    if passes (← Scan.look distance) then findFrom passes fuel (distance + 1)
    else return some distance

/-- The distance to a number sign from `distance` on, if only characters that are
passed over stand before it. -/
def find (passes : Char → Bool) (distance : Nat) : Scan (Option Nat) := do
  match ← findFrom passes (reach - distance) distance with
  | some n => return if (← Scan.look n) = '#' then some n else none
  | none => return none

/-- Passes over `n` characters, line ends among them. -/
def skipAcross (n : Nat) : Scan Unit := do
  let stop := (← Scan.mark).index + n
  let _ ← Scan.loop (fun () => do
    Scan.need 1
    if stop ≤ (← Scan.mark).index then return ((), false)
    if isBreak (← Scan.look 0) then Scan.skipLine else Scan.skip
    return ((), true)) ()

/-- Whether a character ends a line and takes one byte. -/
def isPlainBreak (c : Char) : Bool := c = '\n' || c = '\r'

/-- Passes over a comment and over those that follow it, of which only blanks and
line ends divide it. -/
def skipAll : Scan Unit := do
  let _ ← Scan.loop (fun () => do
    Scan.skipToLineEnd
    if !isPlainBreak (← Scan.look 0) then return ((), false)
    match ← find (fun c => isBlank c || isPlainBreak c) 1 with
    | some n =>
      skipAcross n
      return ((), true)
    | none => return ((), false)) ()

/-- Passes over a comment on the line of a token, if the line has not ended. -/
def skipAfterToken : Scan Unit := do
  if (← get).breaks = 0 then
    match ← find isBlank 0 with
    | some n =>
      Scan.skipMany n
      Scan.skipToLineEnd
    | none => return

end Comment

/-- What has been learnt on the way to a token. -/
structure Passage where
  /-- Whether a key may stand there: outside of brackets it may at the start of a line. -/
  keyAllowed : Bool
  /-- The place of the first comment. -/
  comment : Option Mark := none

/-- Passes over blanks, comments and line ends up to the next token, where
`inside` tells that a bracket is open and `keyAllowed` that a key may stand. -/
def skipToToken (inside keyAllowed : Bool) : Scan Passage :=
  Scan.loop (fun notes => do
    Scan.need 1
    let cursor ← get
    if cursor.mark.column = 0 && cursor.marked then Scan.skip
    Scan.skipWhile fun c => c = ' ' || (c = '\t' && (inside || !notes.keyAllowed))
    let place ← Scan.mark
    let commented := (← Scan.look 0) = '#'
    let notes :=
      if commented then { notes with comment := notes.comment <|> some place } else notes
    if commented then Comment.skipAll
    if isBreak (← Scan.look 0) then
      Scan.skipLine
      return ({ notes with keyAllowed := notes.keyAllowed || !inside }, true)
    else return (notes, false)) { keyAllowed := keyAllowed }

end LeastModel.Config
