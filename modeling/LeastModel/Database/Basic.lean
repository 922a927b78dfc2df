import LeastModel.Database.Instances
import LeastModel.Number.Total
import Std.Data.ExtTreeMap

/-!
# Databases

A database has a table of relations by name and, beside it, the names in the
order of their declaration. A relation keeps the attributes it was declared with,
and its tuples only ever become more. A call that changes the database gives,
beside what it reports, the database as it leaves it, also when it fails.
-/

namespace LeastModel

/-- The declared relations by name, and their names in order of declaration. -/
structure Database (digest : Digest) where
  table : Std.ExtTreeMap Bytes (Relation digest)
  order : List Bytes

namespace Database

variable {digest : Digest}

/-- The database without relations. -/
def empty : Database digest := ⟨∅, []⟩

/-- The relation under the given name. -/
def find? (db : Database digest) (name : Bytes) : Option (Relation digest) := db.table[name]?

/-- The relation under the given name, or the failure that there is none. -/
def relation (db : Database digest) (name : Bytes) : Except Fault (Relation digest) :=
  match db.find? name with
  | some r => .ok r
  | none => .error (.relationNotFound name)

/-- Whether a relation of that name is declared. -/
def has (db : Database digest) (name : Bytes) : Bool := db.table.contains name

/-- The names of the relations, in order of declaration. -/
def names (db : Database digest) : List Bytes := db.order

/-- The relations, in order of declaration. -/
def relations (db : Database digest) : List (Relation digest) := db.order.filterMap db.find?

/-- The number of tuples of all relations together. -/
def tupleCount (db : Database digest) : Nat :=
  Number.total (db.table.toList.map (·.2.size))

/-- Puts a relation under a name. -/
def put (db : Database digest) (name : Bytes) (r : Relation digest) : Database digest :=
  { db with table := db.table.insert name r }

/-- Puts a relation under a name that is not declared yet. -/
def putNew (db : Database digest) (name : Bytes) (r : Relation digest) : Database digest :=
  { db.put name r with order := db.order ++ [name] }

/-- The relation without tuples that a scheme declares. -/
def relationOf (scheme : Atom) : Relation digest :=
  .empty scheme.name (scheme.terms.map (·.value))

/-- Declares the relation of a scheme. -/
def declare (db : Database digest) (scheme : Atom) : Except Fault Unit × Database digest :=
  if db.has scheme.name then (.error (.relationExists scheme.name), db)
  else if scheme.terms.any (·.isConstant) then (.error (.constantInScheme scheme), db)
  else (.ok (), db.putNew scheme.name (relationOf scheme))

/-- Adds a tuple to the relation under a name and tells whether it was new. -/
def addTuple (db : Database digest) (name : Bytes) (t : Tuple) :
    Except Fault Bool × Database digest :=
  match db.relation name with
  | .error fault => (.error fault, db)
  | .ok r =>
    let (outcome, r) := r.addTuple t
    (outcome, db.put name r)

/-- Adds a fact to its relation and tells whether it was new. -/
def addFact (db : Database digest) (fact : Atom) : Except Fault Bool × Database digest :=
  if fact.isGround then db.addTuple fact.name (fact.terms.map (·.value))
  else (.error (.openFact fact), db)

/-- Puts the union with `r` in the place of the relation under a name and tells
how many tuples were new. -/
def merge (db : Database digest) (name : Bytes) (r : Relation digest) :
    Except Fault Nat × Database digest :=
  match db.relation name with
  | .error fault => (.error fault, db)
  | .ok current =>
    match current.union r with
    | .error fault => (.error fault, db)
    | .ok merged => (.ok (merged.size - current.size), db.put name merged)

/-- The instances of an atom in its relation. -/
def query (db : Database digest) (atom : Atom) : Except Fault (Relation digest) := do
  (← db.relation atom.name).instances atom

/-- Declares schemes in turn. -/
def declareAll (db : Database digest) : List Atom → Except Fault (Database digest)
  | [] => .ok db
  | scheme :: schemes =>
    match db.declare scheme with
    | (.error fault, _) => .error fault
    | (.ok (), db) => db.declareAll schemes

/-- Adds facts in turn. -/
def addFacts (db : Database digest) : List Atom → Except Fault (Database digest)
  | [] => .ok db
  | fact :: facts =>
    match db.addFact fact with
    | (.error fault, _) => .error fault
    | (.ok _, db) => db.addFacts facts

/-- The database of the schemes and facts of a program. -/
def load (p : Program) : Except Fault (Database digest) := do
  (← empty.declareAll p.schemes).addFacts p.facts

/-- The number of values of all tuples, counted as often as they occur. -/
def valueCount (db : Database digest) : Nat :=
  Number.total (db.relations.map fun r => r.size * r.arity)

/-- A bound on the number of tuples that can be built from the values of the
database: for each relation, every choice of a value for every attribute. -/
def capacity (db : Database digest) : Nat :=
  Number.total (db.relations.map fun r => Nat.pow db.valueCount r.arity)

end Database

end LeastModel
