import LeastModel.Text.Quoted

/-!
# Tokens

The lexical units of a program text: punctuation, section keywords, names,
quoted constants and comments. Malformed text has kinds of its own, so that
splitting a text into tokens never fails.
-/

namespace LeastModel

/-- The kinds of tokens. A number outside the list of kinds is kept as it is. -/
inductive TokenKind where
  | eof
  | comma
  | period
  | questionMark
  | leftParen
  | rightParen
  | colon
  | colonDash
  | multiply
  | add
  | schemes
  | facts
  | rules
  | queries
  | identifier
  | constant
  | comment
  | undefined
  | unterminatedConstant
  | unterminatedComment
  | unlisted (code : Int)
  deriving DecidableEq

namespace TokenKind

/-- The kinds by number, counted from zero. -/
def listed : List TokenKind :=
  [eof, comma, period, questionMark, leftParen, rightParen, colon, colonDash, multiply, add,
   schemes, facts, rules, queries, identifier, constant, comment, undefined,
   unterminatedConstant, unterminatedComment]

/-- The kind with a given number. -/
def ofCode : Int → TokenKind
  | .ofNat n => listed.getD n (unlisted n)
  | .negSucc n => unlisted (.negSucc n)

/-- The upper-case name under which a kind is reported. -/
def name : TokenKind → Bytes
  | eof => "EOF"
  | comma => "COMMA"
  | period => "PERIOD"
  | questionMark => "Q_MARK"
  | leftParen => "LEFT_PAREN"
  | rightParen => "RIGHT_PAREN"
  | colon => "COLON"
  | colonDash => "COLON_DASH"
  | multiply => "MULTIPLY"
  | add => "ADD"
  | schemes => "SCHEMES"
  | facts => "FACTS"
  | rules => "RULES"
  | queries => "QUERIES"
  | identifier => "ID"
  | constant => "STRING"
  | comment => "COMMENT"
  | undefined => "UNDEFINED"
  | unterminatedConstant => "UNTERMINATED_STRING"
  | unterminatedComment => "UNTERMINATED_BLOCK_COMMENT"
  | unlisted code => "TokenType(" ++ Bytes.ofInt code ++ ")"

/-- Whether tokens of this kind mark malformed text. -/
def isError : TokenKind → Bool
  | undefined | unterminatedConstant | unterminatedComment => true
  | _ => false

end TokenKind

/-- A token: its kind, its text, and the line and column of its first character. -/
structure Token where
  kind : TokenKind
  value : Bytes
  line : Int
  col : Int
  deriving DecidableEq

namespace Token

/-- Whether the token marks malformed text. -/
def isError (t : Token) : Bool := t.kind.isError

/-- The token as it is shown in messages: kind, quoted text and line. -/
def render (t : Token) : Bytes :=
  "(" ++ t.kind.name ++ "," ++ Text.quoted t.value ++ "," ++ Bytes.ofInt t.line ++ ")"

end Token

end LeastModel
