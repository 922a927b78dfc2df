import LeastModel.Plan.Groups
import LeastModel.Relation.Tuple

/-!
# What can go wrong with relations, databases and evaluation

Every failure is a cause with the facts it is about; `Fault.message` words it.
Failures inside a rule or a query are wrapped in the place where they arose.
-/

namespace LeastModel

/-- The causes of failure. -/
inductive Fault where
  /-- A scheme declares a relation that is declared already. -/
  | relationExists (name : Bytes)
  /-- An atom or a tuple is for a relation that is not declared. -/
  | relationNotFound (name : Bytes)
  /-- A scheme has a constant among its terms. -/
  | constantInScheme (scheme : Atom)
  /-- A fact has a term that is no constant. -/
  | openFact (fact : Atom)
  /-- A tuple has not as many values as the relation has attributes. -/
  | tupleArity (relation : Bytes) (arity : Nat) (tuple : Tuple)
  /-- An atom has not as many terms as its relation has attributes. -/
  | atomArity (name : Bytes) (used declared : Nat)
  /-- A rule head, seen before evaluation, has a wrong number of terms. -/
  | headArity (name : Bytes) (used declared : Nat)
  /-- A body atom, seen before evaluation, has a wrong number of terms. -/
  | bodyArity (name : Bytes) (used declared : Nat)
  /-- There is no attribute at a place. -/
  | indexOutOfRange (index : Int) (arity : Nat) (relation : Bytes)
  /-- An atom that should name attributes has a constant. -/
  | constantInAtom (value : Bytes) (atom : Atom)
  /-- A rule head has a constant. -/
  | constantInHead (value : Bytes)
  /-- A relation has no attribute of a name. -/
  | attributeNotFound (attr relation : Bytes) (schema : List Bytes)
  /-- A new list of attributes is longer or shorter than the old one. -/
  | renameSize (relation : Bytes) (arity : Nat) (schema : List Bytes)
  /-- Two relations to be united have different numbers of attributes. -/
  | unionSize (left : Bytes) (leftArity : Nat) (right : Bytes) (rightArity : Nat)
  /-- Variables of a rule head do not occur in the body. -/
  | unboundVariables (names : List Bytes)
  /-- A group of rules has used up its passes before its fixpoint. -/
  | passLimit (group : List Nat) (passes : Nat)
  /-- A failure in a rule. -/
  | inRule (rule : Rule) (cause : Fault)
  /-- A failure in a query. -/
  | inQuery (query : Atom) (cause : Fault)
  deriving DecidableEq

namespace Fault

/-- The names of a list in brackets, separated by spaces. -/
def bracketed (names : List Bytes) : Bytes := "[" ++ Bytes.join " " names ++ "]"

/-- The families of failures. -/
inductive Family where
  | relationExists
  | relationNotFound
  | invalidScheme
  | invalidFact
  | indexOutOfRange
  | mismatchedSchemeSize
  | constantInSchema
  | arityMismatch
  | attributeNotFound
  | unboundHeadVariable
  | passLimit
  deriving DecidableEq

/-- The text that opens the message of every failure of a family. -/
def Family.title : Family → Bytes
  | relationExists => "relation already exists"
  | relationNotFound => "relation not found"
  | invalidScheme => "scheme contains a constant"
  | invalidFact => "fact contains an identifier"
  | indexOutOfRange => "attribute index out of range"
  | mismatchedSchemeSize => "scheme size mismatch"
  | constantInSchema => "constant where an attribute name is required"
  | arityMismatch => "tuple arity does not match scheme"
  | attributeNotFound => "attribute not in scheme"
  | unboundHeadVariable => "head variable does not occur in rule body"
  | passLimit => "pass limit exceeded before fixpoint"

/-- The family of a failure, looked up through its wrappings. -/
def family : Fault → Family
  | relationExists _ => .relationExists
  | relationNotFound _ => .relationNotFound
  | constantInScheme _ => .invalidScheme
  | openFact _ => .invalidFact
  | tupleArity .. | atomArity .. | headArity .. | bodyArity .. => .arityMismatch
  | indexOutOfRange .. => .indexOutOfRange
  | constantInAtom .. | constantInHead _ => .constantInSchema
  | attributeNotFound .. => .attributeNotFound
  | renameSize .. | unionSize .. => .mismatchedSchemeSize
  | unboundVariables _ => .unboundHeadVariable
  | passLimit .. => .passLimit
  | inRule _ cause | inQuery _ cause => cause.family

/-- What a message says after the title of the family. -/
def detail : Fault → Bytes
  | relationExists name | relationNotFound name => name
  | constantInScheme atom | openFact atom => atom.render
  | tupleArity relation arity tuple =>
    relation ++ " has " ++ Bytes.ofNat arity ++ " attributes, tuple " ++ tuple.render ++
      " has " ++ Bytes.ofNat tuple.length
  | atomArity name used declared =>
    name ++ " used with " ++ Bytes.ofNat used ++ " parameters, declared with " ++
      Bytes.ofNat declared
  | headArity name used declared =>
    "head " ++ name ++ " has " ++ Bytes.ofNat used ++ " parameters, declared with " ++
      Bytes.ofNat declared
  | bodyArity name used declared =>
    name ++ " has " ++ Bytes.ofNat used ++ " parameters, declared with " ++ Bytes.ofNat declared
  | indexOutOfRange index arity relation =>
    Bytes.ofInt index ++ " not in [0, " ++ Bytes.ofNat arity ++ ") for " ++ relation
  | constantInAtom value atom => value ++ " in " ++ atom.render
  | constantInHead value => value ++ " in head"
  | attributeNotFound attr relation schema =>
    attr ++ " not in " ++ relation ++ bracketed schema
  | renameSize relation arity schema =>
    relation ++ " has " ++ Bytes.ofNat arity ++ " attributes, new scheme " ++ bracketed schema ++
      " has " ++ Bytes.ofNat schema.length
  | unionSize left leftArity right rightArity =>
    "cannot union " ++ left ++ " (" ++ Bytes.ofNat leftArity ++ ") with " ++ right ++ " (" ++
      Bytes.ofNat rightArity ++ ")"
  | unboundVariables names => bracketed names
  | passLimit group passes =>
    "group " ++ Graph.renderNodes group ++ " after " ++ Bytes.ofNat passes ++ " passes"
  | inRule _ cause | inQuery _ cause => cause.detail

/-- The wording of a failure: where it arose, its family, and its detail. -/
def message : Fault → Bytes
  | inRule rule cause => "rule " ++ rule.render ++ ": " ++ cause.message
  | inQuery query cause => "query " ++ query.render ++ "?: " ++ cause.message
  | fault => fault.family.title ++ ": " ++ fault.detail

end Fault

end LeastModel
