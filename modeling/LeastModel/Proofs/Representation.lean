import LeastModel.Proofs.Relation
import Mathlib.Data.Finset.Card

/-!
# How relations hold their tuples

A relation holds its tuples in a list beside an index by hash. Whatever has been
done to build it, the list has no tuple twice, no tuple of the wrong length, and
the index finds exactly what is in the list; so the questions that are answered
by the index are answered as if there were none, whatever the digest.

## Main statement

`Relation.Built.holdsFaithfully`: this is so for every relation that the
operations build, and copies are among them.
-/

namespace LeastModel.Relation

variable {digest : Digest}

/-- The list of tuples and the index belong together, and tell what is asked. -/
structure HoldsFaithfully (r : Relation digest) : Prop where
  arity : ∀ t ∈ r.tuples, t.length = r.schema.length
  nodup : r.tuples.Nodup
  /-- A hash leads to the places of the tuples with that hash. -/
  mem_places : ∀ h i, i ∈ r.set.places h ↔ ∃ t, r.tuples[i]? = some t ∧ t.hash digest = h
  places_ascending : ∀ h, (r.set.places h).Pairwise (· < ·)
  contains_iff : ∀ t, r.contains t = true ↔ t ∈ r.tuples
  size_eq : r.size = r.tuples.toFinset.card
  /-- A tuple is added when it fits, and reported as new when it was not there. -/
  add_iff : ∀ t new, (∃ s, r.add t = .ok (s, new)) ↔
    t.length = r.schema.length ∧ (new = true ↔ r.contains t = false)

theorem HoldsFaithfully.of_wellFormed {r : Relation digest} (hr : r.WellFormed) :
    r.HoldsFaithfully where
  arity := hr.arity
  nodup := hr.set.nodup
  mem_places := by
    intro h i
    rw [hr.set.mem_places, tuples, TupleSet.toList, Array.getElem?_toList]
  places_ascending := by
    intro h
    rw [hr.set.places_eq]
    exact List.pairwise_lt_range.filter _
  contains_iff := hr.set.contains_iff
  size_eq := r.size_eq_length.trans (List.toFinset_card_of_nodup hr.set.nodup).symm
  add_iff := by
    intro t new
    simp only [add_eq_ok_iff, exists_and_left, exists_eq_left]
    refine and_congr_right fun _ => ?_
    cases new <;> cases r.contains t <;> simp

theorem size_of_add {r s : Relation digest} (hr : r.WellFormed) {t : Tuple} {new : Bool}
    (h : r.add t = .ok (s, new)) : s.size = r.size + new.toNat := by
  obtain ⟨-, rfl, rfl⟩ := add_eq_ok_iff.mp h
  have hcontains : r.contains t = true ↔ t ∈ r.tuples := hr.set.contains_iff t
  rw [size_eq_length, size_eq_length, tuples_insertAll hr]
  by_cases ht : t ∈ r.tuples
  · simp [ht, hcontains.mpr ht]
  · have hmissing : r.contains t = false := Bool.eq_false_iff.mpr fun h => ht (hcontains.mp h)
    simp [ht, hmissing, List.eraseDups_cons]

/-! ## Copies -/

theorem addAll_eq_ok {r : Relation digest} {ts : List Tuple}
    (hts : ∀ t ∈ ts, t.length = r.arity) : r.addAll ts = .ok (r.insertAll ts) := by
  induction ts generalizing r with
  | nil => rfl
  | cons t ts ih =>
      obtain ⟨ht, hts⟩ := List.forall_mem_cons.mp hts
      refine bind_eq_ok_iff.mpr ⟨_, add_eq_ok_iff.mpr ⟨ht, rfl, rfl⟩, ?_⟩
      exact ih (r := r.insertAll [t]) hts

theorem Built.insertAll_empty {name : Bytes} {schema : List Bytes} {ts : List Tuple}
    (hts : ∀ t ∈ ts, t.length = schema.length) :
    ((Relation.empty name schema : Relation digest).insertAll ts).Built :=
  .ofTuples (addAll_eq_ok (r := .empty name schema) hts)

theorem tuples_copy {r : Relation digest} (hr : r.WellFormed) : r.copy.tuples = r.tuples :=
  TupleSet.toList_ofList_of_nodup hr.set.nodup

/-- A copy is what the tuples of a relation build. -/
theorem Built.copy {r : Relation digest} (h : r.Built) : r.copy.Built :=
  .insertAll_empty h.wellFormed.arity

/-! ## Relations built by the operations -/

/-- Whatever the operations build holds its tuples faithfully, and a copy of it
is built as well and holds the same tuples. -/
theorem Built.holdsFaithfully {r : Relation digest} (h : r.Built) :
    r.HoldsFaithfully ∧ r.copy.Built ∧ r.copy.name = r.name ∧ r.copy.schema = r.schema ∧
      r.copy.tuples = r.tuples :=
  ⟨.of_wellFormed h.wellFormed, h.copy, rfl, rfl, tuples_copy h.wellFormed⟩

/-- Pairs under a repeated attribute, joined with themselves under other names and
cut down to one column, all with the same hash. -/
def columnOfJoin : Except Fault (Relation fun _ => 0) := do
  let pairs ← ofTuples "r" ["x", "x"] [["a", "b"], ["b", "a"], ["a", "a"]]
  let renamed ← pairs.rename ["x", "y"]
  (pairs.join renamed).project [2, 2]

theorem holdsFaithfully_columnOfJoin :
    ∃ column, columnOfJoin = .ok column ∧ column.Built ∧
      column.tuples = ([["b"], ["a"]] : List Tuple) ∧
      column.HoldsFaithfully ∧ column.copy.Built ∧ column.copy.name = column.name ∧
      column.copy.schema = column.schema ∧ column.copy.tuples = column.tuples := by
  have htuples : columnOfJoin.toOption.map (·.tuples) =
      some ([["b"], ["a"]] : List Tuple) := by
    decide +kernel
  cases hcolumn : columnOfJoin with
  | error fault =>
      rw [hcolumn] at htuples
      cases htuples
  | ok column =>
      rw [hcolumn] at htuples
      obtain ⟨pairs, hpairs, h⟩ := bind_eq_ok_iff.mp hcolumn
      obtain ⟨renamed, hrenamed, hproject⟩ := bind_eq_ok_iff.mp h
      have hbuilt : column.Built :=
        .project (.join (.ofTuples hpairs) (.rename (.ofTuples hpairs) hrenamed)) hproject
      exact ⟨column, rfl, hbuilt, Option.some.inj htuples, hbuilt.holdsFaithfully⟩

end LeastModel.Relation
