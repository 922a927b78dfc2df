import LeastModel.Config.Comment
import LeastModel.Config.Token

/-!
# Reading tokens

What a token is shows from its first characters, from the brackets that are open
and from the indentation.
-/

namespace LeastModel.Config

namespace Lex

/-- Reads the end of the text. It counts as a new line. -/
def readEnd : Lex Unit := do
  modify fun t =>
    let mark := t.cursor.mark
    if mark.column = 0 then t
    else { t with cursor := { t.cursor with mark := ⟨mark.index, mark.line + 1, 0⟩ } }
  leaveDocument
  emit .stop (← mark)

/-- Reads a line that divides documents. -/
def readDivider (kind : TokenKind) : Lex Unit := do
  leaveDocument
  let start ← mark
  scan (Scan.skipMany 3)
  emit kind start

/-- Reads a directive. -/
def readDirective : Lex Unit := do
  leaveDocument
  let start ← mark
  let directive ← scan Directive.read
  emit (.directive directive) start

/-- Reads an opening bracket. The candidate inside of it starts out with the number
of the bracket itself. -/
def readOpening (kind : TokenKind) : Lex Unit := do
  noteKey
  let t ← get
  if maxDepth ≤ t.depth then throw (.within .tooDeep {} t.cursor.mark)
  set { t with keys := t.keys.push { number := t.nextNumber, mark := t.cursor.mark } }
  allowKey true
  sign kind

/-- Reads a closing bracket. -/
def readClosing (kind : TokenKind) : Lex Unit := do
  dropKey
  let t ← get
  if t.inside then
    let t := t.forget t.candidate.number
    set { t with keys := t.keys.pop }
  allowKey false
  sign kind

/-- Reads a comma. -/
def readComma : Lex Unit := do
  dropKey
  allowKey true
  sign .comma

/-- Reads a hyphen before an item. -/
def readHyphen : Lex Unit := do
  let t ← get
  if !t.inside then
    if !t.keyAllowed then fail .unexpectedEntry
    openBlock t.cursor.mark.column none .openSequence t.cursor.mark
  dropKey
  allowKey true
  sign .hyphen

/-- Reads a question mark before a key. -/
def readKey : Lex Unit := do
  let t ← get
  if !t.inside then
    if !t.keyAllowed then fail .unexpectedKey
    openBlock t.cursor.mark.column none .openMapping t.cursor.mark
  dropKey
  allowKey !t.inside
  sign .key

/-- Reads a colon before a value. If the token before it can be a key, it is one. -/
def readValue : Lex Unit := do
  let t ← get
  if ← isStillKey t.depth then
    let key := t.candidate
    set (t.insert (some key.number) ⟨.key, key.mark⟩)
    openBlock key.mark.column (some key.number) .openMapping key.mark
    modify fun t => (t.setCandidate { key with possible := false }).forget key.number
    allowKey false
  else
    if !t.inside then
      if !t.keyAllowed then fail .unexpectedValue
      openBlock t.cursor.mark.column none .openMapping t.cursor.mark
    allowKey !t.inside
  sign .value

/-- Reads a token that may be a key, and after which none may stand. -/
def readKeyLike (reader : Scan TokenKind) : Lex Unit := do
  noteKey
  allowKey false
  let start ← mark
  let kind ← scan reader
  emit kind start

/-- Reads a block scalar. -/
def readBlock (folded : Bool) : Lex Unit := do
  dropKey
  allowKey true
  let start ← mark
  let text ← scan (Block.read folded (← get).indent)
  emit (.scalar false text) start

/-- Reads a plain scalar. If a line ends after it, a key may stand there. -/
def readPlain : Lex Unit := do
  noteKey
  allowKey false
  let t ← get
  let (text, broken) ← scan (Plain.read t.inside (t.indent + 1).toNat)
  emit (.scalar true text) t.cursor.mark
  if broken then allowKey true

/-- The characters with which no plain scalar starts, unless one of the last three
is followed by a character that is no gap. -/
def signs : List Char :=
  [',', '[', ']', '\x7b', '\x7d', '#', '&', '*', '!', '|', '>', '\x27', '\x22', '%', '@', '\x60',
   '-', '?', ':']

/-- Whether a plain scalar starts with a character before another. -/
def startsPlain (inside : Bool) (c next : Char) : Bool :=
  !(isGap c || c ∈ signs) || (c = '-' && !isBlank next) ||
    (!inside && (c = '?' || c = ':') && !isGap next)

/-- Reads a token within a document. -/
def readToken : Lex Unit := do
  let t ← get
  let c := t.cursor.look 0
  let next := t.cursor.look 1
  if c = '[' then readOpening .openBracket
  else if c = '\x7b' then readOpening .openBrace
  else if c = ']' then readClosing .closeBracket
  else if c = '\x7d' then readClosing .closeBrace
  else if c = ',' then readComma
  else if c = '-' && isGap next then readHyphen
  else if c = '?' && (t.inside || isGap next) then readKey
  else if c = ':' && (t.inside || isGap next) then readValue
  else if c = '*' then readKeyLike (do return .reference (← anchorName))
  else if c = '&' then readKeyLike (do return .anchor (← anchorName))
  else if c = '!' then readKeyLike (do
    let (handle, rest) ← Tag.read
    return .tag handle rest)
  else if c = '|' && !t.inside then readBlock false
  else if c = '>' && !t.inside then readBlock true
  else if c = '\x27' then readKeyLike (do return .scalar false (← Quote.read false))
  else if c = '\x22' then readKeyLike (do return .scalar false (← Quote.read true))
  else if startsPlain t.inside c next then readPlain
  else fail .unexpectedStart

/-- Reads the next token, and a comment on its line. A comment after a hyphen
belongs to what follows. -/
def readNext : Lex Unit := do
  scan (Scan.need 1)
  let t ← get
  if !t.started then
    set { t with started := true }
    emit .start t.cursor.mark
  else
    let passage ← scan (skipToToken t.inside t.keyAllowed)
    allowKey passage.keyAllowed
    closeBlocks (← mark).column passage.comment t.cursor.mark
    scan (Scan.need 4)
    let cursor := (← get).cursor
    if cursor.look 0 = endMark then readEnd
    else if cursor.mark.column = 0 && cursor.look 0 = '%' then readDirective
    else if cursor.atDivider then
      readDivider (if cursor.look 0 = '-' then .documentStart else .documentEnd)
    else
      readToken
      if ((← get).queue.getLast?.map (·.kind)) ≠ some .hyphen then
        scan Comment.skipAfterToken

/-- Reads tokens, at most `fuel`, until three are waiting and the first of them
cannot turn out to be a key. -/
def prepareFrom : (fuel : Nat) → Lex Unit
  | 0 => return
  | fuel + 1 => do
    let t ← get
    let ready ←
      if t.queue.length < 3 then pure false
      else
        match t.keyLevels.lookup t.taken with
        | none => pure true
        | some level => pure (!(← isStillKey level))
    if !ready then
      readNext
      prepareFrom fuel

/-- The next token. -/
def peek : Lex Token := do
  let t ← get
  prepareFrom (t.cursor.left + 8)
  match (← get).queue with
  | token :: _ => return token
  | [] => return ⟨.stop, (← mark)⟩

/-- Takes the next token. What was known about tokens that have been taken is of no
more use. -/
def take : Lex Unit :=
  modify fun t =>
    { t with
      queue := t.queue.drop 1
      taken := t.taken + 1
      keyLevels := t.keyLevels.takeWhile (t.taken < ·.1) }

end Lex

end LeastModel.Config
