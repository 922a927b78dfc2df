import LeastModel.Config.Literal
import LeastModel.Config.Property

/-!
# The tokens of a configuration file

Indentation shows what belongs together outside of brackets; it is turned into
tokens that open and close sequences and mappings. That a scalar is a key shows
only at the colon after it, so tokens wait in a queue in which the token for the
key can still be put before it. A key of this kind lies on one line and is at most
1024 characters long. Where a token is taken from the queue before its colon
shows, the tokens for the key come after it, at the end of the queue.
-/

namespace LeastModel.Config

/-- What a token is. -/
inductive TokenKind where
  | start
  | stop
  | directive (d : Directive)
  | documentStart
  | documentEnd
  | openSequence
  | openMapping
  | closeBlock
  | openBracket
  | closeBracket
  | openBrace
  | closeBrace
  | hyphen
  | comma
  | key
  | value
  | reference (name : Bytes)
  | anchor (name : Bytes)
  | tag (handle rest : Bytes)
  | scalar (plain : Bool) (text : List Char)
  deriving DecidableEq

/-- A token with its place. -/
structure Token where
  kind : TokenKind
  mark : Mark
  deriving DecidableEq

/-- A token that may turn out to be a key. -/
structure SimpleKey where
  possible : Bool := false
  /-- Whether a key has to stand at this place. -/
  required : Bool := false
  /-- The number of the token. -/
  number : Nat := 0
  mark : Mark := {}

/-- The tokens of a text, from some token on. -/
structure Tokens where
  cursor : Cursor
  /-- The tokens that have been read and not been taken. -/
  queue : List Token := []
  /-- The number of tokens that have been taken. -/
  taken : Nat := 0
  started : Bool := false
  /-- The column of the innermost sequence or mapping that is laid out by
  indentation; -1 outside of all. -/
  indent : Int := -1
  /-- The columns of those around it. -/
  outer : List Int := []
  /-- What may turn out to be a key: in the text as a whole, and in each bracket
  that is open, the innermost last. -/
  keys : Array SimpleKey := #[{}]
  /-- For the number of a token that may turn out to be a key, the number of
  brackets around it; the latest token first. -/
  keyLevels : List (Nat × Nat) := []
  /-- Whether a key may stand here. -/
  keyAllowed : Bool := true

/-- A reader of tokens. -/
abbrev Lex := StateT Tokens (Except DocumentFault)

namespace Tokens

/-- The number of open brackets. -/
def depth (t : Tokens) : Nat := t.keys.size - 1

/-- Whether a bracket is open. -/
def inside (t : Tokens) : Bool := 1 < t.keys.size

/-- The number of the next token that is put at the end of the queue. -/
def nextNumber (t : Tokens) : Nat := t.taken + t.queue.length

/-- The innermost candidate for a key. -/
def candidate (t : Tokens) : SimpleKey := t.keys.back?.getD {}

/-- The same with another candidate inside of some brackets. -/
def setKey (t : Tokens) (level : Nat) (key : SimpleKey) : Tokens :=
  { t with keys := t.keys.setIfInBounds level key }

/-- The same with another innermost candidate for a key. -/
def setCandidate (t : Tokens) (key : SimpleKey) : Tokens := t.setKey t.depth key

/-- Forgets that a token may turn out to be a key. -/
def forget (t : Tokens) (number : Nat) : Tokens :=
  { t with keyLevels := t.keyLevels.filter (·.1 ≠ number) }

/-- Puts a token into the queue, before the token with a number. If there is no
such token, or it has been taken, the end of the queue is the place. -/
def insert (t : Tokens) (number : Option Nat) (token : Token) : Tokens :=
  match number.filter (t.taken ≤ ·) with
  | none => { t with queue := t.queue ++ [token] }
  | some n =>
    let position := n - t.taken
    { t with queue := t.queue.take position ++ token :: t.queue.drop position }

end Tokens

namespace Lex

/-- Reads characters. -/
def scan {α : Type} (reader : Scan α) : Lex α := do
  let (a, cursor) ← reader (← get).cursor
  modify fun t => { t with cursor := cursor }
  return a

/-- The place of the cursor. -/
def mark : Lex Mark := return (← get).cursor.mark

/-- Fails at the cursor. -/
def fail {α : Type} (cause : Cause) : Lex α := do throw (.within cause (← mark) (← mark))

/-- Puts a token at the end of the queue. -/
def emit (kind : TokenKind) (mark : Mark) : Lex Unit :=
  modify fun t => t.insert none ⟨kind, mark⟩

/-- Tells whether a key may stand here. -/
def allowKey (allowed : Bool) : Lex Unit := modify fun t => { t with keyAllowed := allowed }

/-- Gives up the innermost candidate for a key. -/
def dropKey : Lex Unit := do
  let t ← get
  let key := t.candidate
  if key.possible then
    if key.required then throw (.within .missingColon key.mark t.cursor.mark)
    set ((t.setCandidate { key with possible := false }).forget key.number)

/-- Notes that the next token may be a key. -/
def noteKey : Lex Unit := do
  let t ← get
  if t.keyAllowed then
    let key : SimpleKey :=
      { possible := true
        required := !t.inside && t.indent = t.cursor.mark.column
        number := t.nextNumber
        mark := t.cursor.mark }
    dropKey
    modify fun t =>
      let t := t.setCandidate key
      { t with keyLevels := (key.number, t.depth) :: t.keyLevels }

/-- Whether the candidate inside of some brackets can still be a key. One that
cannot is given up; it is a fault if it has to be a key. The number of its token is
kept, and from then on stands for whatever is a candidate inside of these
brackets. -/
def isStillKey (level : Nat) : Lex Bool := do
  let t ← get
  match t.keys[level]? with
  | none => return false
  | some key =>
    if !key.possible then return false
    else if key.mark.line < t.cursor.mark.line || key.mark.index + 1024 < t.cursor.mark.index then
      if key.required then throw (.within .missingColon key.mark t.cursor.mark)
      set (t.setKey level { key with possible := false })
      return false
    else return true

/-- The number of brackets, and of levels of indentation, that can be open. -/
def maxDepth : Nat := 10000

/-- Opens a sequence or mapping that is laid out from a column on, unless one is
open there. Its token is put before the token with a number or at the end. -/
def openBlock (column : Nat) (number : Option Nat) (kind : TokenKind) (mark : Mark) :
    Lex Unit := do
  let t ← get
  if !t.inside && t.indent < column then
    let outer := t.indent :: t.outer
    if maxDepth < outer.length then
      throw (.within .tooDeep t.candidate.mark t.cursor.mark)
    set ({ t with indent := column, outer := outer }.insert number ⟨kind, mark⟩)

/-- Closes sequences and mappings, of at most `fuel`, that are laid out right of a
column. The token that closes one stands at the comment before what follows, if that
is as far right, or else where the token before it stands, `place` at first. -/
def closeBlocksFrom (column : Int) (comment : Option Mark) : (fuel : Nat) → (place : Mark) → Lex Unit
  | 0, _ => return
  | fuel + 1, place => do
    let t ← get
    if column < t.indent then
      let place := (comment.filter fun mark => mark.column = t.indent).getD place
      set { t with indent := t.outer.headD (-1), outer := t.outer.drop 1 }
      emit .closeBlock place
      closeBlocksFrom column comment fuel place

/-- Closes the sequences and mappings that are laid out right of a column, where what
follows the last token starts at `place`. -/
def closeBlocks (column : Int) (comment : Option Mark) (place : Mark) : Lex Unit := do
  let t ← get
  if !t.inside then closeBlocksFrom column comment (t.outer.length + 1) place

/-- Passes over a sign and emits its token. -/
def sign (kind : TokenKind) : Lex Unit := do
  let start ← mark
  scan Scan.skip
  emit kind start

/-- Closes everything before a token that stands outside of all documents. -/
def leaveDocument : Lex Unit := do
  closeBlocks (-1) none (← mark)
  dropKey
  allowKey false

end Lex

end LeastModel.Config
