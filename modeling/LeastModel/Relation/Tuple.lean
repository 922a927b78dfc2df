import LeastModel.Codec.Varint
import LeastModel.Relation.Digest

/-!
# Tuples

A tuple is a list of values. Tuples are ordered value by value, and hashed
through their counted values, so that moving a character from one value to its
neighbour changes what is hashed.
-/

namespace LeastModel

/-- A list of values, one per attribute. -/
abbrev Tuple := List Bytes

namespace Tuple

/-- Strict lexicographic order by value; on a shared beginning the shorter tuple
comes first. -/
def lt : Tuple → Tuple → Bool
  | [], [] => false
  | [], _ :: _ => true
  | _ :: _, [] => false
  | v :: vs, w :: ws => if v = w then lt vs ws else Bytes.le v w

/-- The order in which tuples are listed. -/
def le (t u : Tuple) : Bool := !lt u t

/-- The values in parentheses, separated by commas. -/
def render (t : Tuple) : Bytes := "(" ++ Bytes.join "," t ++ ")"

/-- The byte string under which a tuple is hashed. -/
def key (t : Tuple) : Bytes := t.flatMap Codec.counted

/-- The hash of a tuple. -/
def hash (digest : Digest) (t : Tuple) : UInt64 := digest t.key

/-- The value at a place; beyond the end, the empty value. -/
def value (t : Tuple) (i : Nat) : Bytes := t.getD i []

/-- The values at the given places, in the given order. -/
def columns (t : Tuple) (places : List Nat) : Tuple := places.map t.value

/-- The values at places that may lie outside the tuple. -/
def columns? (t : Tuple) (places : List Int) : Option Tuple :=
  places.mapM fun i => if 0 ≤ i then t[i.toNat]? else none

end Tuple

end LeastModel
