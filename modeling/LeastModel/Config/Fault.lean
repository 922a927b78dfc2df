import LeastModel.Config.Encoding

/-!
# Configuration files that cannot be read
-/

namespace LeastModel.Config

/-- A place in a text. Everything is counted from zero. -/
structure Mark where
  index : Nat := 0
  line : Nat := 0
  column : Nat := 0
  deriving DecidableEq

/-- Why a text is no document. -/
inductive Cause where
  | encoding (fault : EncodingFault)
  | unexpectedStart
  | strayTab
  | strayBlockTab
  | unexpectedValue
  | unexpectedKey
  | unexpectedEntry
  | missingColon
  | tooDeep
  | openQuote
  | quotedDivider
  | unknownEscape
  | badEscapeDigits
  | badEscapeCode
  | zeroIndentation
  | trailingText
  | badAnchor
  | missingBang
  | missingUri
  | missingAngle
  | badUriEscape
  | badUriLead
  | badUriTail
  | missingBlankAfterTag
  | missingBlank
  | missingDirectiveName
  | badDirectiveName
  | unknownDirective
  | missingVersion
  | missingVersionPoint
  | longVersion
  | repeatedVersion
  | wrongVersion
  | repeatedHandle
  | unknownHandle
  | missingDocumentStart
  | missingKey
  | missingHyphen
  | missingNode
  | openBraces
  | openBrackets
  | unknownAnchor (name : Bytes)
  deriving DecidableEq

/-- The wording of a cause. -/
def Cause.wording : Cause → Bytes
  | encoding fault => fault.wording
  | unexpectedStart => "found character that cannot start any token"
  | strayTab => "found a tab character that violates indentation"
  | strayBlockTab => "found a tab character where an indentation space is expected"
  | unexpectedValue => "mapping values are not allowed in this context"
  | unexpectedKey => "mapping keys are not allowed in this context"
  | unexpectedEntry => "block sequence entries are not allowed in this context"
  | missingColon => "could not find expected ':'"
  | tooDeep => "exceeded max depth of 10000"
  | openQuote => "found unexpected end of stream"
  | quotedDivider => "found unexpected document indicator"
  | unknownEscape => "found unknown escape character"
  | badEscapeDigits => "did not find expected hexdecimal number"
  | badEscapeCode => "found invalid Unicode character escape code"
  | zeroIndentation => "found an indentation indicator equal to 0"
  | trailingText => "did not find expected comment or line break"
  | badAnchor => "did not find expected alphabetic or numeric character"
  | missingBang => "did not find expected '!'"
  | missingUri => "did not find expected tag URI"
  | missingAngle => "did not find the expected '>'"
  | badUriEscape => "did not find URI escaped octet"
  | badUriLead => "found an incorrect leading UTF-8 octet"
  | badUriTail => "found an incorrect trailing UTF-8 octet"
  | missingBlankAfterTag => "did not find expected whitespace or line break"
  | missingBlank => "did not find expected whitespace"
  | missingDirectiveName => "could not find expected directive name"
  | badDirectiveName => "found unexpected non-alphabetical character"
  | unknownDirective => "found unknown directive name"
  | missingVersion => "did not find expected version number"
  | missingVersionPoint => "did not find expected digit or '.' character"
  | longVersion => "found extremely long version number"
  | repeatedVersion => "found duplicate %YAML directive"
  | wrongVersion => "found incompatible YAML document"
  | repeatedHandle => "found duplicate %TAG directive"
  | unknownHandle => "found undefined tag handle"
  | missingDocumentStart => "did not find expected <document start>"
  | missingKey => "did not find expected key"
  | missingHyphen => "did not find expected '-' indicator"
  | missingNode => "did not find expected node content"
  | openBraces => "did not find expected ',' or '\x7d'"
  | openBrackets => "did not find expected ',' or ']'"
  | unknownAnchor name => "unknown anchor '" ++ name ++ "' referenced"

/-- A cause with the line that is told; none for the first line. -/
structure DocumentFault where
  cause : Cause
  line : Option Nat
  deriving DecidableEq

namespace DocumentFault

/-- The line that is told of two, which is the first of them that is not the
first line of the text. -/
def told (context problem : Mark) : Option Nat :=
  if context.line ≠ 0 then some context.line
  else if problem.line ≠ 0 then some problem.line
  else none

/-- A fault within a token that begins at `context`. Lines are told counted from one. -/
def within (cause : Cause) (context problem : Mark) : DocumentFault :=
  ⟨cause, (told context problem).map (· + 1)⟩

/-- A fault between tokens, in something that begins at `context`. Lines are told
counted from zero. -/
def between (cause : Cause) (context problem : Mark) : DocumentFault :=
  ⟨cause, told context problem⟩

/-- A fault that has no place. -/
def nowhere (cause : Cause) : DocumentFault := ⟨cause, none⟩

/-- The wording of a fault. -/
def message (f : DocumentFault) : Bytes :=
  match f.line with
  | none => f.cause.wording
  | some n => "line " ++ Bytes.ofNat n ++ ": " ++ f.cause.wording

end DocumentFault

end LeastModel.Config
