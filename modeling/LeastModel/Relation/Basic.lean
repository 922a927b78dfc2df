import LeastModel.Fault
import LeastModel.Relation.TupleSet

/-!
# Relations

A relation is a named set of tuples over a list of attributes. Attributes may
share a name; the first of that name is the one that is found.
-/

namespace LeastModel

/-- A named set of tuples over attributes, hashed by `digest`. -/
structure Relation (digest : Digest) where
  name : Bytes
  schema : List Bytes
  set : TupleSet digest

namespace Relation

variable {digest : Digest}

/-- The relation without tuples. -/
def empty (name : Bytes) (schema : List Bytes) : Relation digest := ⟨name, schema, .empty⟩

/-- The number of attributes. -/
def arity (r : Relation digest) : Nat := r.schema.length

/-- The number of tuples. -/
def size (r : Relation digest) : Nat := r.set.size

/-- Whether there are no tuples. -/
def isEmpty (r : Relation digest) : Bool := r.size == 0

/-- The tuples in order of insertion. -/
def tuples (r : Relation digest) : List Tuple := r.set.toList

/-- The tuples in ascending order. -/
def sorted (r : Relation digest) : List Tuple := r.tuples.mergeSort Tuple.le

/-- Whether the tuple belongs to the relation. -/
def contains (r : Relation digest) (t : Tuple) : Bool := r.set.contains t

/-- The relation with more tuples, taken to have the right number of values. -/
def insertAll (r : Relation digest) (ts : List Tuple) : Relation digest :=
  { r with set := r.set.insertAll ts }

/-- Takes in a tuple, unless it is there already, and tells whether it was new;
beside that is the relation as the call leaves it. -/
def addTuple (r : Relation digest) (t : Tuple) : Except Fault Bool × Relation digest :=
  if t.length = r.arity then (.ok (!r.contains t), { r with set := r.set.insert t })
  else (.error (.tupleArity r.name r.arity t), r)

/-- The relation with one more tuple and whether the tuple was new, for those who
drop the relation when the tuple is refused. -/
def add (r : Relation digest) (t : Tuple) : Except Fault (Relation digest × Bool) :=
  match r.addTuple t with
  | (.ok new, r) => .ok (r, new)
  | (.error fault, _) => .error fault

/-- The relation with the tuples of a list added in turn. -/
def addAll (r : Relation digest) : List Tuple → Except Fault (Relation digest)
  | [] => .ok r
  | t :: ts => do
    let (r, _) ← r.add t
    r.addAll ts

/-- The relation with the tuples of a list. -/
def ofTuples (name : Bytes) (schema : List Bytes) (ts : List Tuple) :
    Except Fault (Relation digest) :=
  (empty name schema).addAll ts

/-- A relation of its own with the same name, attributes and tuples, which are
inserted afresh. -/
def copy (r : Relation digest) : Relation digest := { r with set := .ofList r.tuples }

/-- The first place of an attribute with the given name. -/
def placeOf? (r : Relation digest) (name : Bytes) : Option Nat :=
  r.schema.findIdx? (· == name)

/-- The relation in one line: name, attributes and number of tuples. -/
def render (r : Relation digest) : Bytes :=
  r.name ++ "(" ++ Bytes.join "," r.schema ++ ") [" ++ Bytes.ofNat r.size ++ " tuples]"

/-- What holds of every relation that is built by the operations of this
library: the set is well formed, and every tuple has one value per attribute. -/
structure WellFormed (r : Relation digest) : Prop where
  set : r.set.WellFormed
  arity : ∀ t ∈ r.tuples, t.length = r.arity

end Relation

end LeastModel
