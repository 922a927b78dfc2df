import LeastModel.Relation.Basic

/-!
# The natural join

Two tuples are joined when they agree wherever their relations have attributes
of the same name. The tuples of the second relation are put into buckets by the
hash of their shared values, so that each tuple of the first meets only the
bucket of its own hash; agreement is then tested on the values.
-/

namespace LeastModel.Relation

variable {digest : Digest}

/-- The pairs of places at which two lists of attributes have the same name, by
the places of the second list. -/
def sharedPlaces (left right : List Bytes) : List (Nat × Nat) :=
  right.zipIdx.flatMap fun (name, j) =>
    left.zipIdx.filterMap fun (leftName, i) => if leftName == name then some (i, j) else none

/-- The places of the attributes of `right` whose names do not occur in `left`. -/
def freshPlaces (left right : List Bytes) : List Nat :=
  right.zipIdx.filterMap fun (name, j) => if left.contains name then none else some j

/-- Tuples by the hash of their values at the given places, in order. -/
def buckets (digest : Digest) (places : List Nat) (ts : List Tuple) :
    Std.TreeMap UInt64 (List Tuple) :=
  ts.foldr (fun t table =>
    let h := (t.columns places).hash digest
    table.insert h (t :: table.getD h [])) ∅

/-- The natural join: the attributes of `r`, then those of `s` whose names are
new; for each tuple of `r`, the tuples of `s` that agree with it. -/
def join (r s : Relation digest) : Relation digest :=
  let shared := sharedPlaces r.schema s.schema
  let leftPlaces := shared.map (·.1)
  let rightPlaces := shared.map (·.2)
  let fresh := freshPlaces r.schema s.schema
  let table := buckets digest rightPlaces s.tuples
  let joined := r.tuples.flatMap fun t =>
    ((table.getD ((t.columns leftPlaces).hash digest) []).filter fun u =>
      t.columns leftPlaces == u.columns rightPlaces).map fun u => t ++ u.columns fresh
  { name := r.name
    schema := r.schema ++ fresh.map fun j => s.schema.getD j []
    set := .ofList joined }

end LeastModel.Relation
