import LeastModel.Relation.Basic

/-!
# Operations on one relation, and union

Selection, projection, renaming and union. Each gives a new relation whose
tuples keep the order in which they are met.
-/

namespace LeastModel.Relation

variable {digest : Digest}

/-- The place that a number stands for, if the relation has an attribute there. -/
def place (r : Relation digest) (i : Int) : Except Fault Nat :=
  if 0 ≤ i ∧ i < r.arity then .ok i.toNat else .error (.indexOutOfRange i r.arity r.name)

/-- The relation of the tuples that satisfy `keep`. -/
def filter (r : Relation digest) (keep : Tuple → Bool) : Relation digest :=
  { r with set := .ofList (r.tuples.filter keep) }

/-- Wanted values by place, where a later value for a place replaces an earlier
one. -/
def lastPerPlace : List (Int × Bytes) → List (Int × Bytes)
  | [] => []
  | (i, v) :: rest =>
    if rest.any (·.1 == i) then lastPerPlace rest else (i, v) :: lastPerPlace rest

/-- The tuples that have the wanted value at every place with one. -/
def select (r : Relation digest) (wanted : List (Int × Bytes)) :
    Except Fault (Relation digest) := do
  let checks ← (lastPerPlace wanted).mapM fun (i, v) => do return (← r.place i, v)
  return r.filter fun t => checks.all fun (i, v) => t.value i == v

/-- The tuples whose values at all the given places are equal. -/
def selectEqual (r : Relation digest) (places : List Int) : Except Fault (Relation digest) := do
  let places ← places.mapM r.place
  return r.filter fun t =>
    match places with
    | [] => true
    | first :: others => others.all fun i => t.value i == t.value first

/-- The relation over the attributes at the given places, in the given order. -/
def columns (r : Relation digest) (places : List Nat) : Relation digest where
  name := r.name
  schema := places.map fun i => r.schema.getD i []
  set := .ofList (r.tuples.map (·.columns places))

/-- The relation over the attributes at the given places, taken once each and in
ascending order. -/
def project (r : Relation digest) (places : List Int) : Except Fault (Relation digest) := do
  let wanted ← places.mapM r.place
  return r.columns ((List.range r.arity).filter wanted.contains)

/-- The places of the attributes that the terms name. -/
def placesOf (r : Relation digest) (atom : Atom) : List Term → Except Fault (List Nat)
  | [] => .ok []
  | t :: ts =>
    if t.isConstant then .error (.constantInAtom t.value atom)
    else
      match r.placeOf? t.value with
      | none => .error (.attributeNotFound t.value r.name r.schema)
      | some i => do return i :: (← placesOf r atom ts)

/-- The relation over the attributes that the terms of an atom name, in the
order of the terms. -/
def projectAtom (r : Relation digest) (atom : Atom) : Except Fault (Relation digest) := do
  return r.columns (← r.placesOf atom atom.terms)

/-- The same tuples over new attributes. -/
def rename (r : Relation digest) (schema : List Bytes) : Except Fault (Relation digest) :=
  if schema.length = r.arity then .ok { r with schema }
  else .error (.renameSize r.name r.arity schema)

/-- The attribute names that the terms of an atom stand for. -/
def namesOf (atom : Atom) : List Term → Except Fault (List Bytes)
  | [] => .ok []
  | t :: ts =>
    if t.isConstant then .error (.constantInAtom t.value atom)
    else do return t.value :: (← namesOf atom ts)

/-- The same tuples over the attributes that the terms of an atom name. -/
def renameAtom (r : Relation digest) (atom : Atom) : Except Fault (Relation digest) := do
  r.rename (← namesOf atom atom.terms)

/-- The tuples of both relations, under the name and attributes of the first. -/
def union (r s : Relation digest) : Except Fault (Relation digest) :=
  if s.arity = r.arity then .ok (r.insertAll s.tuples)
  else .error (.unionSize r.name r.arity s.name s.arity)

end LeastModel.Relation
