import LeastModel.Relation.Tuple
import Std.Data.TreeMap

/-!
# Sets of tuples in order of insertion

The tuples stand in the order in which they were first inserted. An index maps
every hash to the places of the tuples with that hash, ascending; tuples that
share a hash are told apart by their values, so the digest decides how fast a
tuple is found and never whether it is found.
-/

namespace LeastModel

/-- A set of tuples, hashed by `digest`. -/
structure TupleSet (digest : Digest) where
  tuples : Array Tuple
  index : Std.TreeMap UInt64 (List Nat)

namespace TupleSet

variable {digest : Digest}

/-- The set without tuples. -/
def empty : TupleSet digest := ⟨#[], ∅⟩

/-- The tuples in order of insertion. -/
def toList (s : TupleSet digest) : List Tuple := s.tuples.toList

/-- The number of tuples. -/
def size (s : TupleSet digest) : Nat := s.tuples.size

/-- The places of the tuples with hash `h`. -/
def places (s : TupleSet digest) (h : UInt64) : List Nat := s.index.getD h []

/-- Whether the tuple stands at one of the given places. -/
def holdsAt (s : TupleSet digest) (places : List Nat) (t : Tuple) : Bool :=
  places.any fun i => s.tuples[i]? == some t

/-- Whether the set has the tuple. -/
def contains (s : TupleSet digest) (t : Tuple) : Bool :=
  s.holdsAt (s.places (t.hash digest)) t

/-- The set with the tuple put at its end, unless the set has it already. -/
def insert (s : TupleSet digest) (t : Tuple) : TupleSet digest :=
  let h := t.hash digest
  let here := s.places h
  if s.holdsAt here t then s
  else
    let index := s.index.insert h (here ++ [s.tuples.size])
    ⟨s.tuples.push t, index⟩

/-- The set with the tuples of a list inserted one after another. -/
def insertAll (s : TupleSet digest) (ts : List Tuple) : TupleSet digest :=
  ts.foldl insert s

/-- The set of the tuples of a list. -/
def ofList (ts : List Tuple) : TupleSet digest := empty.insertAll ts

/-- What holds of every set that is built by insertion: tuples are pairwise
different, and the index lists the places of each hash in ascending order. -/
structure WellFormed (s : TupleSet digest) : Prop where
  nodup : s.toList.Nodup
  places_eq : ∀ h, s.places h =
    (List.range s.size).filter fun i => (s.tuples[i]?).map (·.hash digest) == some h

end TupleSet

end LeastModel
