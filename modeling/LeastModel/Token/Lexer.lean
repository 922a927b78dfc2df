import LeastModel.Token.Basic
import LeastModel.Text.Blank
import LeastModel.Text.Digit
import LeastModel.Text.Letter

/-!
# From text to tokens

A text is read character by character. Where a token starts, `lexeme` decides
its kind and how many of the following characters belong to it; `scan` then
passes over them. White space between tokens is dropped, and an end-of-text
token closes the list.
-/

namespace LeastModel

/-- A place in a text: line and column, both counted from one. -/
structure Position where
  line : Nat
  col : Nat
  deriving DecidableEq

namespace Position

/-- The first place of a text. -/
def start : Position := ⟨1, 1⟩

/-- The place after a character that stands at `p`. -/
def next (p : Position) (c : Char) : Position :=
  if c = '\n' then ⟨p.line + 1, 1⟩ else ⟨p.line, p.col + 1⟩

end Position

namespace Lexer

/-- Whether a character may follow the first one of a word. -/
def isWordChar (c : Char) : Bool := Text.isLetter c || Text.isDigit c

/-- The kind of a word: one of the section keywords, or a name. -/
def wordKind (word : List Char) : TokenKind :=
  if word = "Schemes".toList then .schemes
  else if word = "Facts".toList then .facts
  else if word = "Rules".toList then .rules
  else if word = "Queries".toList then .queries
  else .identifier

/-- The number of characters up to and including the first quote. -/
def constantEnd? : List Char → Option Nat
  | [] => none
  | c :: cs => if c = '\x27' then some 1 else (constantEnd? cs).map (· + 1)

/-- The number of characters up to and including the first closing mark of a
block comment. -/
def commentEnd? : List Char → Option Nat
  | [] => none
  | c :: cs =>
    if c = '|' ∧ cs.head? = some '#' then some 2 else (commentEnd? cs).map (· + 1)

/-- The kind of the comment whose opening mark stands before `cs`, and how many
characters of `cs` belong to it. -/
def comment (cs : List Char) : TokenKind × Nat :=
  match cs with
  | '|' :: body =>
    match commentEnd? body with
    | some n => (.comment, n + 1)
    | none => (.unterminatedComment, body.length + 1)
  | _ => (.comment, (cs.takeWhile (· != '\n')).length)

/-- The kind of the token that starts with `c`, and how many of the characters
`cs` after it belong to it. -/
def lexeme (c : Char) (cs : List Char) : TokenKind × Nat :=
  match c with
  | ',' => (.comma, 0)
  | '.' => (.period, 0)
  | '?' => (.questionMark, 0)
  | '(' => (.leftParen, 0)
  | ')' => (.rightParen, 0)
  | '*' => (.multiply, 0)
  | '+' => (.add, 0)
  | ':' => if cs.head? = some '-' then (.colonDash, 1) else (.colon, 0)
  | '#' => comment cs
  | '\x27' =>
    match constantEnd? cs with
    | some n => (.constant, n)
    | none => (.unterminatedConstant, cs.length)
  | _ =>
    if Text.isLetter c then
      let tail := cs.takeWhile isWordChar
      (wordKind (c :: tail), tail.length)
    else (.undefined, 0)

/-- The tokens of the text `cs` that starts at `p`, after passing over its first
`skip` characters. -/
def scan : (skip : Nat) → (p : Position) → (cs : List Char) → List Token
  | _, p, [] => [⟨.eof, [], p.line, p.col⟩]
  | skip + 1, p, c :: cs => scan skip (p.next c) cs
  | 0, p, c :: cs =>
    if Text.isBlank c then scan 0 (p.next c) cs
    else
      let (kind, n) := lexeme c cs
      ⟨kind, Utf8.encode (c :: cs.take n), p.line, p.col⟩ :: scan n (p.next c) cs

end Lexer

/-- The tokens of a program text, closed by an end-of-text token. -/
def lex (source : Bytes) : List Token :=
  Lexer.scan 0 .start (Utf8.decode source)

end LeastModel
