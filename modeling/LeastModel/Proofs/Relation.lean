import LeastModel.Database.Instances
import LeastModel.Proofs.TupleSet
import LeastModel.Relation.Join

/-!
# Relations that the operations build

Every operation keeps relations well formed, so `WellFormed` holds of whatever
is built by them (`Built.wellFormed`). For well-formed relations each operation
is described by what it does to the list of tuples.
-/

namespace LeastModel

/-- An outcome that is not a failure gives its value to what follows. -/
theorem bind_eq_ok_iff
    {ε α β : Type} {x : Except ε α} {f : α → Except ε β} {b : β} :
    x >>= f = .ok b ↔ ∃ a, x = .ok a ∧ f a = .ok b := by
  cases x with
  | error e => exact ⟨(nomatch ·), fun ⟨_, h, _⟩ => nomatch h⟩
  | ok a =>
      constructor
      · exact fun h => ⟨a, rfl, h⟩
      · rintro ⟨_, ⟨rfl⟩, h⟩
        exact h

theorem exists_ok_of_map_toOption {ε α β : Type} {x : Except ε α} {f : α → β} {b : β}
    (h : x.toOption.map f = some b) : ∃ a, x = .ok a ∧ f a = b := by
  cases x with
  | error e => cases h
  | ok a => exact ⟨a, rfl, Option.some.inj h⟩

theorem bind_eq_error_iff
    {ε α β : Type} {x : Except ε α} {f : α → Except ε β} {e : ε} :
    x >>= f = .error e ↔ x = .error e ∨ ∃ a, x = .ok a ∧ f a = .error e := by
  cases x with
  | error e' =>
      constructor
      · exact fun h => .inl (congrArg Except.error (Except.error.inj h))
      · rintro (h | ⟨_, h, _⟩)
        · cases h
          rfl
        · exact nomatch h
  | ok a =>
      constructor
      · exact fun h => .inr ⟨a, rfl, h⟩
      · rintro (h | ⟨_, ⟨rfl⟩, h⟩)
        · exact nomatch h
        · exact h

theorem mapError_eq_ok_iff
    {ε ε' α : Type} {x : Except ε α} {f : ε → ε'} {a : α} :
    x.mapError f = .ok a ↔ x = .ok a := by
  cases x with
  | error e => simp [Except.mapError]
  | ok b => simp [Except.mapError]

theorem exists_of_mapError
    {ε ε' α : Type} {x : Except ε α} {f : ε → ε'} {e : ε'} (h : x.mapError f = .error e) :
    ∃ cause, x = .error cause ∧ e = f cause := by
  cases x with
  | error cause => exact ⟨cause, rfl, (Except.error.inj h).symm⟩
  | ok a => exact nomatch h

namespace Relation

variable {digest : Digest}

/-! ## What the operations do to the tuples -/

theorem size_eq_length (r : Relation digest) : r.size = r.tuples.length :=
  (Array.length_toList).symm

theorem tuples_filter
    {r : Relation digest} (hr : r.WellFormed) (keep : Tuple → Bool) :
    (r.filter keep).tuples = r.tuples.filter keep :=
  TupleSet.toList_ofList_of_nodup (hr.set.nodup.filter keep)

theorem mem_columns (r : Relation digest) (places : List Nat) (t : Tuple) :
    t ∈ (r.columns places).tuples ↔ ∃ u ∈ r.tuples, u.columns places = t := by
  rw [columns, tuples, TupleSet.mem_ofList, List.mem_map]

/-- Inserting tuples appends those that are new. -/
theorem tuples_insertAll
    {r : Relation digest} (hr : r.WellFormed) (ts : List Tuple) :
    (r.insertAll ts).tuples = r.tuples ++ (ts.filter (· ∉ r.tuples)).eraseDups :=
  TupleSet.toList_insertAll hr.set ts

theorem mem_insertAll
    {r : Relation digest} (hr : r.WellFormed) (ts : List Tuple) (t : Tuple) :
    t ∈ (r.insertAll ts).tuples ↔ t ∈ r.tuples ∨ t ∈ ts :=
  TupleSet.mem_insertAll hr.set ts t

theorem size_le_insertAll {r : Relation digest} (hr : r.WellFormed) (ts : List Tuple) :
    r.size ≤ (r.insertAll ts).size := by
  rw [size_eq_length, size_eq_length, tuples_insertAll hr, List.length_append]
  exact Nat.le_add_right _ _

/-- A relation that does not become larger had the tuples already. -/
theorem mem_of_size_insertAll
    {r : Relation digest} (hr : r.WellFormed) {ts : List Tuple}
    (hsize : (r.insertAll ts).size ≤ r.size) {t : Tuple} (ht : t ∈ ts) : t ∈ r.tuples := by
  rw [size_eq_length, size_eq_length, tuples_insertAll hr, List.length_append] at hsize
  have hnone : (ts.filter (· ∉ r.tuples)).eraseDups = [] :=
    List.eq_nil_of_length_eq_zero (by omega)
  have hmem := (mem_insertAll hr ts t).mpr (.inr ht)
  rwa [tuples_insertAll hr, hnone, List.append_nil] at hmem

/-! ## Well-formed relations -/

theorem wellFormed_empty (name : Bytes) (schema : List Bytes) :
    (empty name schema : Relation digest).WellFormed where
  set := TupleSet.wellFormed_empty
  arity := fun _ ht => nomatch ht

theorem wellFormed_insertAll
    {r : Relation digest} (hr : r.WellFormed) {ts : List Tuple}
    (hts : ∀ t ∈ ts, t.length = r.arity) : (r.insertAll ts).WellFormed where
  set := TupleSet.wellFormed_insertAll hr.set ts
  arity := by
    intro t ht
    rcases (mem_insertAll hr ts t).mp ht with ht | ht
    · exact hr.arity t ht
    · exact hts t ht

theorem addTuple_eq_ok_iff
    {r s : Relation digest} {t : Tuple} {new : Bool} :
    r.addTuple t = (.ok new, s) ↔
      t.length = r.arity ∧ s = r.insertAll [t] ∧ new = !r.contains t := by
  rw [addTuple]
  by_cases hlength : t.length = r.arity
  · simp only [hlength, if_true, Prod.mk.injEq, Except.ok.injEq, true_and, eq_comm, and_comm]
    rfl
  · simp [hlength]

/-- A tuple that is refused leaves the relation as it was. -/
theorem addTuple_of_error
    {r s : Relation digest} {t : Tuple} {fault : Fault} (h : r.addTuple t = (.error fault, s)) :
    s = r := by
  rw [addTuple] at h
  split at h
  · cases congrArg Prod.fst h
  · exact (congrArg Prod.snd h).symm

theorem add_eq_ok_iff
    {r s : Relation digest} {t : Tuple} {new : Bool} :
    r.add t = .ok (s, new) ↔ t.length = r.arity ∧ s = r.insertAll [t] ∧ new = !r.contains t := by
  rw [← addTuple_eq_ok_iff, add]
  match r.addTuple t with
  | (.ok new', s') => simp [and_comm]
  | (.error fault, s') => simp

theorem WellFormed.add
    {r s : Relation digest} (hr : r.WellFormed) {t : Tuple} {new : Bool}
    (h : r.add t = .ok (s, new)) : s.WellFormed := by
  obtain ⟨hlength, rfl, -⟩ := add_eq_ok_iff.mp h
  exact wellFormed_insertAll hr (by simpa using hlength)

theorem WellFormed.addAll
    {r s : Relation digest} (hr : r.WellFormed) {ts : List Tuple}
    (h : r.addAll ts = .ok s) : s.WellFormed := by
  induction ts generalizing r with
  | nil => exact Except.ok.inj h ▸ hr
  | cons t ts ih =>
      obtain ⟨⟨r', new⟩, hadd, hrest⟩ := bind_eq_ok_iff.mp h
      exact ih (hr.add hadd) hrest

theorem wellFormed_ofList
    {name : Bytes} {schema : List Bytes} {ts : List Tuple}
    (hts : ∀ t ∈ ts, t.length = schema.length) :
    (⟨name, schema, .ofList ts⟩ : Relation digest).WellFormed where
  set := TupleSet.wellFormed_ofList ts
  arity := fun t ht => hts t ((TupleSet.mem_ofList ts t).mp ht)

theorem WellFormed.filter
    {r : Relation digest} (hr : r.WellFormed) (keep : Tuple → Bool) : (r.filter keep).WellFormed :=
  wellFormed_ofList fun t ht => hr.arity t (List.mem_of_mem_filter ht)

theorem wellFormed_columns (r : Relation digest) (places : List Nat) :
    (r.columns places).WellFormed := by
  apply wellFormed_ofList
  intro t ht
  obtain ⟨u, -, rfl⟩ := List.mem_map.mp ht
  simp [Tuple.columns]

theorem wellFormed_select
    {r s : Relation digest} (hr : r.WellFormed) {wanted : List (Int × Bytes)}
    (h : r.select wanted = .ok s) : s.WellFormed := by
  obtain ⟨checks, -, hs⟩ := bind_eq_ok_iff.mp h
  exact Except.ok.inj hs ▸ hr.filter _

theorem wellFormed_selectEqual
    {r s : Relation digest} (hr : r.WellFormed) {places : List Int}
    (h : r.selectEqual places = .ok s) : s.WellFormed := by
  obtain ⟨checks, -, hs⟩ := bind_eq_ok_iff.mp h
  exact Except.ok.inj hs ▸ hr.filter _

theorem wellFormed_project
    {r s : Relation digest} {places : List Int} (h : r.project places = .ok s) :
    s.WellFormed := by
  obtain ⟨wanted, -, hs⟩ := bind_eq_ok_iff.mp h
  exact Except.ok.inj hs ▸ wellFormed_columns r _

theorem wellFormed_projectAtom
    {r s : Relation digest} {atom : Atom} (h : r.projectAtom atom = .ok s) : s.WellFormed := by
  obtain ⟨places, -, hs⟩ := bind_eq_ok_iff.mp h
  exact Except.ok.inj hs ▸ wellFormed_columns r _

theorem rename_eq_ok_iff
    {r s : Relation digest} {schema : List Bytes} :
    r.rename schema = .ok s ↔ schema.length = r.arity ∧ s = { r with schema } := by
  rw [rename]
  split
  · rename_i hlength
    simp only [Except.ok.injEq, hlength, true_and, eq_comm]
  · rename_i hlength
    exact ⟨(nomatch ·), fun h => absurd h.1 hlength⟩

theorem WellFormed.rename
    {r s : Relation digest} (hr : r.WellFormed) {schema : List Bytes}
    (h : r.rename schema = .ok s) : s.WellFormed := by
  obtain ⟨hlength, rfl⟩ := rename_eq_ok_iff.mp h
  exact ⟨hr.set, fun t ht => (hr.arity t ht).trans hlength.symm⟩

theorem union_eq_ok_iff
    {r s u : Relation digest} :
    r.union s = .ok u ↔ s.arity = r.arity ∧ u = r.insertAll s.tuples := by
  rw [union]
  split
  · rename_i harity
    simp only [Except.ok.injEq, harity, true_and, eq_comm]
  · rename_i harity
    exact ⟨(nomatch ·), fun h => absurd h.1 harity⟩

theorem WellFormed.union
    {r s u : Relation digest} (hr : r.WellFormed) (hs : s.WellFormed)
    (h : r.union s = .ok u) : u.WellFormed := by
  obtain ⟨harity, rfl⟩ := union_eq_ok_iff.mp h
  exact wellFormed_insertAll hr fun t ht => (hs.arity t ht).trans harity

theorem WellFormed.join
    {r : Relation digest} (hr : r.WellFormed) (s : Relation digest) : (r.join s).WellFormed := by
  apply wellFormed_ofList
  intro t ht
  obtain ⟨l, hl, ht⟩ := List.mem_flatMap.mp ht
  obtain ⟨u, -, rfl⟩ := List.mem_map.mp ht
  have hlength : l.length = r.schema.length := hr.arity l hl
  simp [Tuple.columns, hlength]

theorem equate_cons (atom : Atom) (name : Bytes) (names : List Bytes) (r : Relation digest) :
    equate atom (name :: names) r =
      (if (atom.placesOf name).length > 1 then r.selectEqual (atom.placesOf name) else .ok r) >>=
        equate atom names := by
  rw [equate]
  split <;> rfl

theorem WellFormed.equate
    {atom : Atom} {names : List Bytes} {r s : Relation digest} (hr : r.WellFormed)
    (h : equate atom names r = .ok s) : s.WellFormed := by
  induction names generalizing r with
  | nil => exact Except.ok.inj h ▸ hr
  | cons name names ih =>
      rw [equate_cons] at h
      obtain ⟨r', hr', hrest⟩ := bind_eq_ok_iff.mp h
      refine ih ?_ hrest
      split at hr'
      · exact wellFormed_selectEqual hr hr'
      · exact Except.ok.inj hr' ▸ hr

theorem wellFormed_instances
    {r s : Relation digest} {atom : Atom} (h : r.instances atom = .ok s) : s.WellFormed := by
  rw [instances] at h
  split at h
  · obtain ⟨selected, -, h⟩ := bind_eq_ok_iff.mp h
    obtain ⟨matched, -, h⟩ := bind_eq_ok_iff.mp h
    obtain ⟨kept, hkept, h⟩ := bind_eq_ok_iff.mp h
    obtain ⟨renamed, hrenamed, h⟩ := bind_eq_ok_iff.mp h
    have hwell := (wellFormed_project hkept).rename hrenamed
    cases Except.ok.inj h
    exact ⟨hwell.set, hwell.arity⟩
  · exact nomatch h

/-! ## Relations built by the operations -/

/-- The relations that can be built by the operations on relations. -/
inductive Built : Relation digest → Prop
  | empty (name : Bytes) (schema : List Bytes) : Built (.empty name schema)
  | ofTuples {name : Bytes} {schema : List Bytes} {ts : List Tuple} {r : Relation digest}
      (h : Relation.ofTuples name schema ts = .ok r) : Built r
  | add {r s : Relation digest} {t : Tuple} {new : Bool}
      (hr : Built r) (h : r.add t = .ok (s, new)) : Built s
  | select {r s : Relation digest} {wanted : List (Int × Bytes)}
      (hr : Built r) (h : r.select wanted = .ok s) : Built s
  | selectEqual {r s : Relation digest} {places : List Int}
      (hr : Built r) (h : r.selectEqual places = .ok s) : Built s
  | project {r s : Relation digest} {places : List Int}
      (hr : Built r) (h : r.project places = .ok s) : Built s
  | projectAtom {r s : Relation digest} {atom : Atom}
      (hr : Built r) (h : r.projectAtom atom = .ok s) : Built s
  | rename {r s : Relation digest} {schema : List Bytes}
      (hr : Built r) (h : r.rename schema = .ok s) : Built s
  | renameAtom {r s : Relation digest} {atom : Atom}
      (hr : Built r) (h : r.renameAtom atom = .ok s) : Built s
  | union {r s u : Relation digest}
      (hr : Built r) (hs : Built s) (h : r.union s = .ok u) : Built u
  | join {r s : Relation digest} (hr : Built r) (hs : Built s) : Built (r.join s)
  | instances {r s : Relation digest} {atom : Atom}
      (hr : Built r) (h : r.instances atom = .ok s) : Built s

theorem Built.wellFormed {r : Relation digest} (h : r.Built) : r.WellFormed := by
  induction h with
  | empty name schema => exact wellFormed_empty name schema
  | ofTuples h => exact (wellFormed_empty _ _).addAll h
  | add _ h hr => exact hr.add h
  | select _ h hr => exact wellFormed_select hr h
  | selectEqual _ h hr => exact wellFormed_selectEqual hr h
  | project _ h => exact wellFormed_project h
  | projectAtom _ h => exact wellFormed_projectAtom h
  | rename _ h hr => exact hr.rename h
  | renameAtom _ h hr =>
      obtain ⟨names, -, h⟩ := bind_eq_ok_iff.mp h
      exact hr.rename h
  | union _ _ h hr hs => exact hr.union hs h
  | join _ _ hr => exact hr.join _
  | instances _ h => exact wellFormed_instances h

end Relation

end LeastModel
