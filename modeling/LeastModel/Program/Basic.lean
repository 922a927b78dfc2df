import LeastModel.Text.Utf8

/-!
# Programs

A program declares relations by schemes, states facts, gives rules and asks
queries. Schemes, facts, rule heads, body atoms and queries have one form in
common: a name applied to terms.
-/

namespace LeastModel

/-- The kind of a term. Two kinds have a meaning; every other number is kept,
and a term of such a kind is neither an identifier nor a constant. -/
structure TermKind where
  code : UInt8
  deriving DecidableEq

namespace TermKind

/-- The kind of attribute names and variables. -/
def identifier : TermKind := ⟨0⟩

/-- The kind of quoted constants. -/
def constant : TermKind := ⟨1⟩

end TermKind

/-- An argument of an atom. A constant keeps its quotes. -/
structure Term where
  kind : TermKind
  value : Bytes
  deriving DecidableEq

namespace Term

/-- The variable or attribute with the given name. -/
def identifier (name : Bytes) : Term := ⟨.identifier, name⟩

/-- The constant with the given text. -/
def constant (value : Bytes) : Term := ⟨.constant, value⟩

/-- Whether the term names a variable or an attribute. -/
def isIdentifier (t : Term) : Bool := t.kind == .identifier

/-- Whether the term is a constant. -/
def isConstant (t : Term) : Bool := t.kind == .constant

end Term

/-- A name applied to terms. -/
structure Atom where
  name : Bytes
  terms : List Term
  deriving DecidableEq

namespace Atom

/-- The number of terms. -/
def arity (a : Atom) : Nat := a.terms.length

/-- Whether every term is a constant. -/
def isGround (a : Atom) : Bool := a.terms.all (·.isConstant)

/-- The distinct identifiers of an atom, in the order of first occurrence. -/
def identifiers (a : Atom) : List Bytes :=
  ((a.terms.filter (·.isIdentifier)).map (·.value)).eraseDups

/-- The atom as it is written in a program. -/
def render (a : Atom) : Bytes :=
  a.name ++ "(" ++ Bytes.join "," (a.terms.map (·.value)) ++ ")"

end Atom

/-- A rule: whatever satisfies all atoms of the body satisfies the head. -/
structure Rule where
  head : Atom
  body : List Atom
  deriving DecidableEq

namespace Rule

/-- The distinct identifiers of the body, in the order of first occurrence. -/
def bodyVariables (r : Rule) : List Bytes :=
  (r.body.flatMap (·.identifiers)).eraseDups

/-- The identifiers of the head that do not occur in the body. -/
def unboundVariables (r : Rule) : List Bytes :=
  r.head.identifiers.filter (fun v => !r.bodyVariables.contains v)

/-- The rule as it is written in a program. -/
def render (r : Rule) : Bytes :=
  r.head.render ++ " :- " ++ Bytes.join "," (r.body.map (·.render)) ++ "."

end Rule

/-- A program: schemes, facts, rules and queries, each in the order of the text. -/
structure Program where
  schemes : List Atom
  facts : List Atom
  rules : List Rule
  queries : List Atom
  deriving DecidableEq

namespace Program

/-- The program without any entry. -/
def empty : Program := ⟨[], [], [], []⟩

/-- The constants of the facts in ascending order, each once. -/
def domain (p : Program) : List Bytes :=
  (p.facts.flatMap fun fact =>
    (fact.terms.filter (·.isConstant)).map (·.value)).eraseDups.mergeSort Bytes.le

/-- One section of a listing: its title with the number of its entries, then the
entries, indented, one a line. -/
def listSection (title : Bytes) (entries : List Bytes) : Bytes :=
  title ++ "(" ++ Bytes.ofNat entries.length ++ "):\n" ++
    entries.flatMap (fun e => ("  " ++ e ++ "\n" : Bytes))

/-- The listing of a program: its four sections and the domain of its facts. -/
def render (p : Program) : Bytes :=
  listSection "Schemes" (p.schemes.map (·.render)) ++
  listSection "Facts" (p.facts.map (·.render ++ ".")) ++
  listSection "Rules" (p.rules.map (·.render)) ++
  listSection "Queries" (p.queries.map (·.render ++ "?")) ++
  listSection "Domain" p.domain

end Program

end LeastModel
