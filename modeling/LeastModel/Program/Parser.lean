import LeastModel.Program.Basic
import LeastModel.Token.Lexer

/-!
# From tokens to programs

The grammar has no nesting, so a program is read by an automaton: every token
either leads to the next state or is refused. Entries of a section, terms of an
atom and atoms of a body repeat through the states between them.

A `Cursor` is a place in a token list. Reading may be repeated: each call goes on
where the last one stopped, which is after the end-of-text token of a program
that was read, or before the token that was refused.
-/

namespace LeastModel

/-- A refused token, and the kinds that were wanted in its place. -/
structure SyntaxError where
  token : Token
  expected : List TokenKind
  deriving DecidableEq

/-- The message for a refused token. -/
def SyntaxError.message (e : SyntaxError) : Bytes :=
  "line " ++ Bytes.ofInt e.token.line ++ ": unexpected token " ++ e.token.render ++
    ", expected " ++ Bytes.join " or " (e.expected.map (·.name))

namespace Parser

/-- The part that an atom plays. -/
inductive Role where
  | scheme
  | fact
  | head
  | body
  | query
  deriving DecidableEq

/-- The kinds of tokens that may be terms of an atom. -/
def Role.termKinds : Role → List TokenKind
  | .scheme | .head => [.identifier]
  | .fact => [.constant]
  | .body | .query => [.identifier, .constant]

/-- The four sections of a program. -/
inductive Section where
  | schemes
  | facts
  | rules
  | queries
  deriving DecidableEq

/-- The keyword that opens a section. -/
def Section.keyword : Section → TokenKind
  | .schemes => .schemes
  | .facts => .facts
  | .rules => .rules
  | .queries => .queries

/-- What the automaton waits for. -/
inductive Control where
  /-- The keyword that opens the first section. -/
  | opening
  /-- The colon after the keyword of a section. -/
  | colon (s : Section)
  /-- Another scheme, or the section of facts. -/
  | schemeOrFacts
  /-- Another fact, or the section of rules. -/
  | factOrRules
  /-- Another rule, or the section of queries. -/
  | ruleOrQueries
  /-- Another query, or the end of the text. -/
  | queryOrEnd
  /-- The name of an atom. -/
  | name (r : Role)
  /-- The parenthesis after the name of an atom. -/
  | leftParen (r : Role)
  /-- A term of an atom. -/
  | term (r : Role)
  /-- Another term, or the closing parenthesis. -/
  | termOrRightParen (r : Role)
  /-- The mark after the closing parenthesis of an atom that is no scheme. -/
  | mark (r : Role)
  deriving DecidableEq

/-- The kinds that are named when a token is refused. Where something may be
repeated, only what ends the repetition is named. -/
def Control.expected : Control → List TokenKind
  | .opening => [.schemes]
  | .colon _ => [.colon]
  | .schemeOrFacts => [.facts]
  | .factOrRules => [.rules]
  | .ruleOrQueries => [.queries]
  | .queryOrEnd => [.eof]
  | .name _ => [.identifier]
  | .leftParen _ => [.leftParen]
  | .term r => r.termKinds
  | .termOrRightParen _ => [.rightParen]
  | .mark .scheme => []
  | .mark .fact => [.period]
  | .mark .head => [.colonDash]
  | .mark .body => [.period]
  | .mark .query => [.questionMark]

/-- A state of the automaton: what it waits for, the entries that are complete,
and the rule and the atom that are being read. -/
structure State where
  control : Control
  program : Program
  rule : Rule
  atom : Atom

/-- The state before the first token. -/
def State.initial : State := ⟨.opening, .empty, ⟨⟨[], []⟩, []⟩, ⟨[], []⟩⟩

/-- What a token leads to. -/
inductive Step where
  | next (s : State)
  | done (p : Program)
  | refused

/-- The term that a token stands for. -/
def termOf (t : Token) : Term :=
  if t.kind = .constant then .constant t.value else .identifier t.value

/-- The state in which the first entry of a section is read. -/
def State.enter (s : State) : Section → State
  | .schemes => { s with control := .name .scheme }
  | .facts => { s with control := .factOrRules }
  | .rules => { s with control := .ruleOrQueries }
  | .queries => { s with control := .name .query }

/-- The state after the name of an atom in a given role. -/
def State.named (s : State) (r : Role) (t : Token) : State :=
  { s with control := .leftParen r, atom := ⟨t.value, []⟩ }

/-- The state after the closing parenthesis of an atom. A scheme is complete
with it; every other atom has a mark to follow. -/
def State.closed (s : State) : Role → State
  | .scheme =>
    { s with
      control := .schemeOrFacts
      program := { s.program with schemes := s.program.schemes ++ [s.atom] } }
  | r => { s with control := .mark r }

/-- What the mark after an atom leads to. -/
def State.marked (s : State) (r : Role) (k : TokenKind) : Step :=
  match r, k with
  | .fact, .period =>
    .next { s with
      control := .factOrRules
      program := { s.program with facts := s.program.facts ++ [s.atom] } }
  | .head, .colonDash => .next { s with control := .name .body, rule := ⟨s.atom, []⟩ }
  | .body, .comma =>
    .next { s with
      control := .name .body
      rule := { s.rule with body := s.rule.body ++ [s.atom] } }
  | .body, .period =>
    .next { s with
      control := .ruleOrQueries
      program := { s.program with
        rules := s.program.rules ++ [{ s.rule with body := s.rule.body ++ [s.atom] }] } }
  | .query, .questionMark =>
    .next { s with
      control := .queryOrEnd
      program := { s.program with queries := s.program.queries ++ [s.atom] } }
  | _, _ => .refused

/-- One step of the automaton. -/
def State.step (s : State) (t : Token) : Step :=
  match s.control with
  | .opening =>
    if t.kind = .schemes then .next { s with control := .colon .schemes } else .refused
  | .colon sec => if t.kind = .colon then .next (s.enter sec) else .refused
  | .schemeOrFacts =>
    if t.kind = .identifier then .next (s.named .scheme t)
    else if t.kind = .facts then .next { s with control := .colon .facts }
    else .refused
  | .factOrRules =>
    if t.kind = .identifier then .next (s.named .fact t)
    else if t.kind = .rules then .next { s with control := .colon .rules }
    else .refused
  | .ruleOrQueries =>
    if t.kind = .identifier then .next (s.named .head t)
    else if t.kind = .queries then .next { s with control := .colon .queries }
    else .refused
  | .queryOrEnd =>
    if t.kind = .identifier then .next (s.named .query t)
    else if t.kind = .eof then .done s.program
    else .refused
  | .name r => if t.kind = .identifier then .next (s.named r t) else .refused
  | .leftParen r => if t.kind = .leftParen then .next { s with control := .term r } else .refused
  | .term r =>
    if t.kind ∈ r.termKinds then
      .next { s with
        control := .termOrRightParen r
        atom := { s.atom with terms := s.atom.terms ++ [termOf t] } }
    else .refused
  | .termOrRightParen r =>
    if t.kind = .comma then .next { s with control := .term r }
    else if t.kind = .rightParen then .next (s.closed r)
    else .refused
  | .mark r => s.marked r t.kind

/-- Reads a program from the tokens `ts`, starting in the state `s`. The result
comes with the tokens that are left. When the tokens run out, `last` is refused. -/
def run (last : Token) : State → (ts : List Token) → Except SyntaxError Program × List Token
  | s, [] => (.error ⟨last, s.control.expected⟩, [])
  | s, t :: ts =>
    match s.step t with
    | .next s' => run last s' ts
    | .done p => (.ok p, ts)
    | .refused => (.error ⟨t, s.control.expected⟩, t :: ts)

end Parser

/-- A place in a list of tokens that ends with an end-of-text token. -/
structure Cursor where
  rest : List Token
  last : Token
  deriving DecidableEq

namespace Cursor

/-- The end-of-text token that is supplied when a list of tokens lacks one. -/
def endMark : Token := ⟨.eof, [], 0, 0⟩

/-- The start of a list of tokens. Comments are left out, and an end-of-text
token is added unless the last remaining token is one. -/
def ofTokens (tokens : List Token) : Cursor :=
  let kept := tokens.filter (·.kind != .comment)
  match kept.getLast? with
  | some last => if last.kind = .eof then ⟨kept, last⟩ else ⟨kept ++ [endMark], endMark⟩
  | none => ⟨[endMark], endMark⟩

/-- Reads one program at the cursor and moves the cursor to where reading stopped. -/
def parse (c : Cursor) : Except SyntaxError Program × Cursor :=
  let (result, rest) := Parser.run c.last .initial c.rest
  (result, { c with rest })

end Cursor

/-- The program that a list of tokens spells. -/
def Program.ofTokens (tokens : List Token) : Except SyntaxError Program :=
  (Cursor.ofTokens tokens).parse.1

/-- The program that a text spells. -/
def Program.parse (source : Bytes) : Except SyntaxError Program :=
  Program.ofTokens (lex source)

end LeastModel
