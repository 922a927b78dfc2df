import LeastModel.Relation.Algebra

/-!
# The instances of an atom in a relation

An atom picks the tuples that match it: a constant asks for its value, and a
variable that is repeated asks for equal values. The result has one attribute
per variable, at its first place and named after it. Every term that is no
constant counts as a variable here.
-/

namespace LeastModel

namespace Atom

/-- The wanted values of an atom, by place. -/
def constants (a : Atom) : List (Int × Bytes) :=
  a.terms.zipIdx.filterMap fun (t, i) => if t.isConstant then some ((i : Int), t.value) else none

/-- The distinct names at places without a constant, in order of first
occurrence. -/
def openNames (a : Atom) : List Bytes :=
  ((a.terms.filter (!·.isConstant)).map (·.value)).eraseDups

/-- The places of the variable `name`, ascending. -/
def placesOf (a : Atom) (name : Bytes) : List Int :=
  a.terms.zipIdx.filterMap fun (t, i) =>
    if !t.isConstant && t.value == name then some (i : Int) else none

end Atom

namespace Relation

variable {digest : Digest}

/-- Keeps the tuples that have equal values at all places of each of the names. -/
def equate (atom : Atom) : List Bytes → Relation digest → Except Fault (Relation digest)
  | [], r => .ok r
  | name :: names, r => do
    let places := atom.placesOf name
    let r ← if places.length > 1 then r.selectEqual places else .ok r
    equate atom names r

/-- The instances of an atom: constants are selected, repeated variables are
equated, and the first place of every variable is kept under its name. -/
def instances (r : Relation digest) (atom : Atom) : Except Fault (Relation digest) := do
  if atom.arity = r.arity then
    let names := atom.openNames
    let matched ← r.select atom.constants
    let matched ← equate atom names matched
    let kept ← matched.project (names.flatMap fun name => (atom.placesOf name).take 1)
    let renamed ← kept.rename names
    return { renamed with name := atom.name }
  else throw (.atomArity atom.name atom.arity r.arity)

end Relation

end LeastModel
