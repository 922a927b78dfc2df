import LeastModel.Proofs.Passes
import Mathlib.Algebra.Group.Nat.Defs
import Mathlib.Data.List.Perm.Subperm

/-!
# The capacity of a database

Rules whose head variables are bound by their bodies make no new values, so the
tuples that can ever be derived are tuples over the values that are there at the
beginning. There are at most `Database.capacity` of them
(`tupleCount_le_capacity`), and this bounds how often a pass can add something.
-/

namespace LeastModel

variable {digest : Digest}

/-! ## Tuples over given values -/

namespace Tuple

/-- All tuples of the given length over the given values. -/
def allOver (values : List Bytes) : Nat → List Tuple
  | 0 => [[]]
  | n + 1 => values.flatMap fun v => (allOver values n).map (v :: ·)

theorem length_allOver (values : List Bytes) (n : Nat) :
    (allOver values n).length = values.length ^ n := by
  induction n with
  | zero => rfl
  | succ n ih =>
      simp only [allOver, List.length_flatMap, List.length_map, ih]
      rw [List.map_const', List.sum_replicate_nat, Nat.pow_succ, Nat.mul_comm]

theorem mem_allOver {values : List Bytes} {t : Tuple} (h : ∀ v ∈ t, v ∈ values) :
    t ∈ allOver values t.length := by
  induction t with
  | nil => exact List.mem_singleton.mpr rfl
  | cons v t ih =>
      obtain ⟨hv, ht⟩ := List.forall_mem_cons.mp h
      exact List.mem_flatMap.mpr ⟨v, hv, List.mem_map.mpr ⟨t, ih ht, rfl⟩⟩

end Tuple

theorem Relation.size_le_pow
    {r : Relation digest} (hr : r.WellFormed) {values : List Bytes}
    (h : ∀ t ∈ r.tuples, ∀ v ∈ t, v ∈ values) : r.size ≤ values.length ^ r.arity := by
  rw [r.size_eq_length, ← Tuple.length_allOver]
  refine (List.subperm_of_subset hr.set.nodup ?_).length_le
  intro t ht
  have hmem := Tuple.mem_allOver (h t ht)
  rwa [hr.arity t ht] at hmem

theorem Number.total_map_le
    {α : Type} {f g : α → Nat} {xs : List α} (h : ∀ x ∈ xs, f x ≤ g x) :
    Number.total (xs.map f) ≤ Number.total (xs.map g) := by
  induction xs with
  | nil => exact le_rfl
  | cons x xs ih =>
      obtain ⟨hx, hxs⟩ := List.forall_mem_cons.mp h
      exact Nat.add_le_add hx (ih hxs)

namespace Database

/-- The values of all tuples. -/
def values (db : Database digest) : List Bytes := db.relations.flatMap (·.tuples.flatten)

theorem length_values {db : Database digest} (hdb : db.WellFormed) :
    db.values.length = db.valueCount := by
  have hrelations : ∀ r ∈ db.relations, r.WellFormed := fun r => hdb.of_mem
  rw [values, valueCount]
  generalize db.relations = relations at hrelations
  induction relations with
  | nil => rfl
  | cons r relations ih =>
      obtain ⟨hr, hrest⟩ := List.forall_mem_cons.mp hrelations
      have hflat : r.tuples.flatten.length = r.size * r.arity := by
        rw [List.length_flatten, List.map_congr_left hr.arity, List.map_const',
          List.sum_replicate_nat, r.size_eq_length]
      rw [List.flatMap_cons, List.length_append, hflat, ih hrest, List.map_cons, Number.total_cons]

theorem mem_values {db : Database digest} (hdb : db.WellFormed) {name : Bytes} {t : Tuple}
    (ht : t ∈ db.model name) {v : Bytes} (hv : v ∈ t) : v ∈ db.values := by
  obtain ⟨r, hr, hmem⟩ := ht
  exact List.mem_flatMap.mpr ⟨r, hdb.mem_of_find? hr, List.mem_flatten.mpr ⟨t, hmem, hv⟩⟩

/-- A database over the same relations and over the values of `db` is within
the capacity of `db`. -/
theorem tupleCount_le_capacity
    {db db' : Database digest} (hdb : db.WellFormed) (hdb' : db'.WellFormed)
    (hsignature : db'.signature = db.signature)
    (hvalues : ∀ name, ∀ t ∈ db'.model name, ∀ v ∈ t, v ∈ db.values) :
    db'.tupleCount ≤ db.capacity := by
  have hsize : ∀ r ∈ db'.relations, r.size ≤ db.valueCount ^ r.arity := by
    intro r hr
    rw [← length_values hdb]
    refine Relation.size_le_pow (hdb'.of_mem hr) ?_
    intro t ht
    exact hvalues r.name t ⟨r, hdb'.mem_relations_iff.mp hr, ht⟩
  have hcapacity : ∀ e : Database digest, e.relations.map (fun r => db.valueCount ^ r.arity) =
      e.signature.map fun s => db.valueCount ^ s.2.length := by
    intro e
    rw [signature, List.map_map]
    rfl
  calc db'.tupleCount
      = Number.total (db'.relations.map (·.size)) := hdb'.tupleCount_eq
    _ ≤ Number.total (db'.relations.map fun r => db.valueCount ^ r.arity) :=
        Number.total_map_le hsize
    _ = db.capacity := by
        rw [hcapacity, hsignature, ← hcapacity]
        rfl

end Database

/-! ## Rules make no new values -/

/-- A rule with a bound head does not leave a set of values. -/
theorem Rule.Bound.satisfiedBy_over {rule : Rule} (h : rule.Bound) (values : List Bytes) :
    rule.SatisfiedBy fun _ => {t | ∀ v ∈ t, v ∈ values} := by
  intro σ hfires v hv
  obtain ⟨t, ht, rfl⟩ := List.mem_map.mp hv
  obtain ⟨hopen, atom, hatom, hname⟩ := h t ht
  have hunder : t.under σ = σ t.value := by simp [Term.under, hopen]
  exact hunder ▸ hfires atom hatom _ (Atom.mem_ground hname σ)

theorem Quiet.Advances.tupleCount_le
    {rules : List Rule} {db db' : Database digest} (h : Advances rules db db')
    (hdb : db.WellFormed) (hbound : ∀ rule ∈ rules, rule.Bound) :
    db'.tupleCount ≤ db.capacity := by
  refine Database.tupleCount_le_capacity hdb h.wellFormed h.signature_eq ?_
  exact h.sound (fun _ => {t | ∀ v ∈ t, v ∈ db.values})
    (fun rule hrule => (hbound rule hrule).satisfiedBy_over db.values)
    fun name t ht v hv => Database.mem_values hdb ht hv

end LeastModel
