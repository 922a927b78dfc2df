import LeastModel.Database.Basic
import LeastModel.Proofs.Relation
import Mathlib.Data.List.Forall2
import Mathlib.Data.Set.Basic

/-!
# Growing databases

The table of a database and the order of its names are kept apart; that they
belong together (`WellFormed`) holds of the empty database and is kept by putting
another relation under a declared name and by putting one under a new name.

After its schemes have been declared a database changes in one way only: some
relation takes in more tuples. `GrowsBy` is that step, for facts and for
derived tuples alike; it keeps databases well formed, keeps the signature, and
adds exactly the tuples it names to what the database holds.
-/

namespace LeastModel

namespace Database

variable {digest : Digest}

/-- What holds of every database that is built by declarations and additions. -/
structure WellFormed (db : Database digest) : Prop where
  /-- No name is declared twice. -/
  names : db.names.Nodup
  /-- The table has relations under the declared names and no others. -/
  declared : ∀ name, name ∈ db.names ↔ db.has name = true
  /-- A relation is named by its key. -/
  named : ∀ {name : Bytes} {r : Relation digest}, db.find? name = some r → r.name = name
  /-- The relations are well formed. -/
  found : ∀ {name : Bytes} {r : Relation digest}, db.find? name = some r → r.WellFormed

/-- The names of the relations with their attributes. -/
def signature (db : Database digest) : List (Bytes × List Bytes) :=
  db.relations.map fun r => (r.name, r.schema)

/-- The tuples that a database has for each name. A name that is not declared
has none. -/
def model (db : Database digest) (name : Bytes) : Set Tuple :=
  {t | ∃ r, db.find? name = some r ∧ t ∈ r.tuples}

/-- `db'` is `db` with more tuples in the relation `name`. -/
def GrowsBy (db : Database digest) (name : Bytes) (ts : List Tuple) (db' : Database digest) :
    Prop :=
  ∃ r, db.find? name = some r ∧ (∀ t ∈ ts, t.length = r.arity) ∧
    db' = db.put name (r.insertAll ts)

theorem mem_model {db : Database digest} {name : Bytes} {t : Tuple} :
    t ∈ db.model name ↔ ∃ r, db.find? name = some r ∧ t ∈ r.tuples :=
  Iff.rfl

/-! ## Looking up relations -/

theorem has_eq_isSome (db : Database digest) (name : Bytes) :
    db.has name = (db.find? name).isSome :=
  Std.ExtTreeMap.contains_eq_isSome_getElem?

/-- In a well-formed database the relations in order are those under their own names. -/
theorem WellFormed.mem_relations_iff {db : Database digest} (hdb : db.WellFormed)
    {r : Relation digest} : r ∈ db.relations ↔ db.find? r.name = some r := by
  rw [relations, List.mem_filterMap]
  constructor
  · rintro ⟨name, -, hr⟩
    rw [hdb.named hr]
    exact hr
  · intro hr
    refine ⟨r.name, (hdb.declared r.name).mpr ?_, hr⟩
    rw [has_eq_isSome, hr, Option.isSome_some]

theorem WellFormed.mem_of_find? {db : Database digest} (hdb : db.WellFormed)
    {name : Bytes} {r : Relation digest} (h : db.find? name = some r) : r ∈ db.relations := by
  rw [hdb.mem_relations_iff, hdb.named h]
  exact h

theorem WellFormed.of_mem {db : Database digest} (hdb : db.WellFormed)
    {r : Relation digest} (h : r ∈ db.relations) : r.WellFormed :=
  hdb.found (hdb.mem_relations_iff.mp h)

theorem WellFormed.exists_find? {db : Database digest} (hdb : db.WellFormed) {name : Bytes}
    (h : name ∈ db.names) : ∃ r, db.find? name = some r := by
  have hhas := (hdb.declared name).mp h
  rw [has_eq_isSome] at hhas
  exact Option.isSome_iff_exists.mp hhas

theorem WellFormed.map_name_relations {db : Database digest} (hdb : db.WellFormed) :
    db.relations.map (·.name) = db.names := by
  calc db.relations.map (·.name)
      = db.names.filterMap fun name => (db.find? name).map (·.name) := List.map_filterMap
    _ = db.names.filterMap some := by
        apply List.filterMap_congr
        intro name hname
        obtain ⟨r, hr⟩ := hdb.exists_find? hname
        rw [hr, Option.map_some, hdb.named hr]
    _ = db.names := List.filterMap_some

theorem relation_eq_ok_iff {db : Database digest} {name : Bytes} {r : Relation digest} :
    db.relation name = .ok r ↔ db.find? name = some r := by
  rw [relation]
  cases db.find? name with
  | none => simp
  | some s => simp

theorem WellFormed.mem_signature_iff {db : Database digest} (hdb : db.WellFormed) {name : Bytes}
    {schema : List Bytes} :
    (name, schema) ∈ db.signature ↔ ∃ r, db.find? name = some r ∧ r.schema = schema := by
  rw [signature, List.mem_map]
  constructor
  · rintro ⟨r, hr, heq⟩
    obtain ⟨rfl, rfl⟩ := Prod.mk.inj heq
    exact ⟨r, hdb.mem_relations_iff.mp hr, rfl⟩
  · rintro ⟨r, hr, rfl⟩
    exact ⟨r, hdb.mem_of_find? hr, by rw [hdb.named hr]⟩

/-- Two databases with the same signature declare the same relations. -/
theorem exists_find?_of_signature {db db' : Database digest} (hdb : db.WellFormed)
    (hdb' : db'.WellFormed) (h : db'.signature = db.signature) {name : Bytes}
    {r : Relation digest} (hr : db.find? name = some r) :
    ∃ r', db'.find? name = some r' ∧ r'.schema = r.schema := by
  have hentry : (name, r.schema) ∈ db.signature := hdb.mem_signature_iff.mpr ⟨r, hr, rfl⟩
  rw [← h] at hentry
  exact hdb'.mem_signature_iff.mp hentry

/-- Databases with the same signature have their relations in the same order. -/
theorem forall₂_of_signature {db db' : Database digest} (h : db.signature = db'.signature) :
    List.Forall₂ (fun r r' => r ∈ db.relations ∧ r' ∈ db'.relations ∧ r.name = r'.name ∧
      r.schema = r'.schema) db.relations db'.relations := by
  have hsame : List.Forall₂ (· = ·) db.signature db'.signature := by
    rw [List.forall₂_eq_eq_eq]
    exact h
  rw [signature, signature, List.forall₂_map_left_iff, List.forall₂_map_right_iff] at hsame
  rw [List.forall₂_iff_zip] at hsame ⊢
  refine ⟨hsame.1, ?_⟩
  intro r r' hmem
  obtain ⟨hname, hschema⟩ := Prod.mk.inj (hsame.2 hmem)
  obtain ⟨hr, hr'⟩ := List.of_mem_zip hmem
  exact ⟨hr, hr', hname, hschema⟩

/-! ## Putting a relation under a name -/

theorem find?_put (db : Database digest) (name : Bytes) (r : Relation digest) (other : Bytes) :
    (db.put name r).find? other = if name = other then some r else db.find? other := by
  rw [find?, put, Std.ExtTreeMap.getElem?_insert, find?]
  simp only [Std.compare_eq_iff_eq]

theorem find?_put_self (db : Database digest) (name : Bytes) (r : Relation digest) :
    (db.put name r).find? name = some r := by
  rw [find?_put, if_pos rfl]

theorem find?_put_of_ne (db : Database digest) {name other : Bytes} (h : other ≠ name)
    (r : Relation digest) : (db.put name r).find? other = db.find? other := by
  rw [find?_put, if_neg h.symm]

theorem has_put (db : Database digest) (name : Bytes) (r : Relation digest) (other : Bytes) :
    (db.put name r).has other = true ↔ other = name ∨ db.has other = true := by
  rw [has_eq_isSome, has_eq_isSome, find?_put]
  by_cases h : name = other
  · simp [h]
  · simp [h, Ne.symm h]

theorem names_put (db : Database digest) (name : Bytes) (r : Relation digest) :
    (db.put name r).names = db.names :=
  rfl

/-- To put back what is there changes nothing. -/
theorem put_self {db : Database digest} {name : Bytes} {r : Relation digest}
    (h : db.find? name = some r) : db.put name r = db := by
  have htable : db.table.insert name r = db.table := by
    apply Std.ExtTreeMap.ext_getElem?
    intro other
    have hother := find?_put db name r other
    by_cases hname : name = other
    · subst hname
      rw [if_pos rfl, ← h] at hother
      exact hother
    · rw [if_neg hname] at hother
      exact hother
  rw [put, htable]

section Put

variable {db : Database digest} {name : Bytes} {r s : Relation digest}

/-- What holds of the relations under all names is kept if it holds of the one that
is put. -/
theorem forall_find?_put {P : Bytes → Relation digest → Prop}
    (hdb : ∀ {other : Bytes} {t : Relation digest}, db.find? other = some t → P other t)
    (hs : P name s) {other : Bytes} {t : Relation digest}
    (ht : (db.put name s).find? other = some t) : P other t := by
  rw [find?_put] at ht
  split at ht
  · rename_i hname
    subst hname
    exact Option.some.inj ht ▸ hs
  · exact hdb ht

/-- A declared relation may be exchanged for another one of its name. -/
theorem WellFormed.put (hdb : db.WellFormed) (hr : db.find? name = some r) (hs : s.WellFormed)
    (hname : s.name = name) : (db.put name s).WellFormed := by
  constructor
  case names => exact hdb.names
  case declared =>
    intro other
    have hhas : db.has name = true := by rw [has_eq_isSome, hr, Option.isSome_some]
    rw [names_put, hdb.declared, has_put]
    constructor
    · exact .inr
    · rintro (rfl | hother)
      · exact hhas
      · exact hother
  case named => exact forall_find?_put hdb.named hname
  case found => exact forall_find?_put hdb.found hs

theorem WellFormed.relations_put (hdb : db.WellFormed) (hr : db.find? name = some r) :
    (db.put name s).relations = db.relations.map fun old => if old.name = name then s else old := by
  rw [relations, relations, List.map_filterMap]
  apply List.filterMap_congr
  intro other _
  by_cases hother : other = name
  · rw [hother, find?_put_self, hr, Option.map_some, if_pos (hdb.named hr)]
  · rw [find?_put_of_ne db hother]
    cases hold : db.find? other with
    | none => rfl
    | some old => rw [Option.map_some, if_neg (by rwa [hdb.named hold])]

theorem WellFormed.signature_put (hdb : db.WellFormed) (hr : db.find? name = some r)
    (hname : s.name = name) (hschema : s.schema = r.schema) :
    (db.put name s).signature = db.signature := by
  rw [signature, hdb.relations_put hr, List.map_map]
  apply List.map_congr_left
  intro old hold
  by_cases hother : old.name = name
  · have hfound := hdb.mem_relations_iff.mp hold
    rw [hother, hr, Option.some_inj] at hfound
    subst hfound
    simp [hother, hname, hschema]
  · simp [hother]

end Put

/-! ## Counting tuples -/

/-- The table has the relations that are found in order of declaration, in another order. -/
theorem WellFormed.toList_perm {db : Database digest} (hdb : db.WellFormed) :
    db.table.toList.Perm (db.relations.map fun r => (r.name, r)) := by
  have htable : db.table.toList.Nodup := by
    apply Std.ExtTreeMap.distinct_keys_toList.imp
    rintro entry other hkeys rfl
    exact hkeys Std.ReflCmp.compare_self
  have hrelations : (db.relations.map fun r => (r.name, r)).Nodup := by
    apply List.Nodup.of_map Prod.fst
    rw [List.map_map]
    exact hdb.map_name_relations.symm ▸ hdb.names
  rw [List.perm_ext_iff_of_nodup htable hrelations]
  rintro ⟨name, r⟩
  rw [Std.ExtTreeMap.mem_toList_iff_getElem?_eq_some, List.mem_map]
  constructor
  · intro hr
    exact ⟨r, hdb.mem_of_find? hr, by rw [hdb.named hr]⟩
  · rintro ⟨s, hs, heq⟩
    obtain ⟨rfl, rfl⟩ := Prod.mk.inj heq
    exact hdb.mem_relations_iff.mp hs

theorem WellFormed.tupleCount_eq {db : Database digest} (hdb : db.WellFormed) :
    db.tupleCount = Number.total (db.relations.map (·.size)) := by
  have hperm := hdb.toList_perm.map (·.2.size)
  rw [List.map_map] at hperm
  exact Number.total_perm hperm

theorem tupleCount_put {db : Database digest} (hdb : db.WellFormed) {name : Bytes}
    {r s : Relation digest} (hr : db.find? name = some r) (hs : s.WellFormed)
    (hname : s.name = name) : (db.put name s).tupleCount + r.size = db.tupleCount + s.size := by
  obtain ⟨before, after, hsplit⟩ := List.append_of_mem (hdb.mem_of_find? hr)
  -- No other relation has that name, so `r` is the only one that is exchanged.
  have hnodup := hdb.names
  rw [← hdb.map_name_relations, hsplit, List.map_append, List.map_cons, hdb.named hr,
    List.nodup_middle, List.nodup_cons, List.mem_append, not_or] at hnodup
  have hothers : ∀ others : List (Relation digest), name ∉ others.map (·.name) →
      (others.map fun old => if old.name = name then s else old) = others := by
    intro others hname
    rw [List.map_congr_left (g := id), List.map_id]
    intro old hold
    exact if_neg fun heq => hname (List.mem_map.mpr ⟨old, hold, heq⟩)
  have hput : (db.put name s).relations = before ++ s :: after := by
    rw [hdb.relations_put hr, hsplit, List.map_append, List.map_cons, hothers _ hnodup.1.1,
      hothers _ hnodup.1.2, if_pos (hdb.named hr)]
  rw [(hdb.put hr hs hname).tupleCount_eq, hdb.tupleCount_eq, hput, hsplit]
  simp only [List.map_append, List.map_cons, Number.total_append, Number.total_cons]
  omega

/-! ## Growing -/

theorem GrowsBy.wellFormed {db db' : Database digest} (hdb : db.WellFormed)
    {name : Bytes} {ts : List Tuple} (h : db.GrowsBy name ts db') : db'.WellFormed := by
  obtain ⟨r, hr, hts, rfl⟩ := h
  have hname : r.name = name := hdb.named hr
  exact hdb.put hr (Relation.wellFormed_insertAll (hdb.found hr) hts) hname

theorem GrowsBy.signature_eq {db db' : Database digest} (hdb : db.WellFormed)
    {name : Bytes} {ts : List Tuple} (h : db.GrowsBy name ts db') :
    db'.signature = db.signature := by
  obtain ⟨r, hr, -, rfl⟩ := h
  have hname : r.name = name := hdb.named hr
  exact hdb.signature_put hr hname rfl

/-- A step adds exactly the tuples that it names. -/
theorem GrowsBy.mem_model {db db' : Database digest} (hdb : db.WellFormed)
    {name : Bytes} {ts : List Tuple} (h : db.GrowsBy name ts db') (other : Bytes) (t : Tuple) :
    t ∈ db'.model other ↔ t ∈ db.model other ∨ other = name ∧ t ∈ ts := by
  obtain ⟨r, hr, -, rfl⟩ := h
  rw [Database.mem_model, Database.mem_model]
  by_cases hother : other = name
  · subst hother
    have hmem := Relation.mem_insertAll (hdb.found hr) ts t
    simpa [hr, find?_put_self] using hmem
  · simp [find?_put_of_ne db hother, hother]

/-! ## Additions -/

theorem relation_eq_error {db : Database digest} {name : Bytes} (h : db.find? name = none) :
    db.relation name = .error (.relationNotFound name) := by
  rw [relation, h]

theorem merge_of_union_ok {db : Database digest} {name : Bytes} {current r merged : Relation digest}
    (h : db.find? name = some current) (hunion : current.union r = .ok merged) :
    db.merge name r = (.ok (merged.size - current.size), db.put name merged) := by
  simp only [merge, relation_eq_ok_iff.mpr h, hunion]

theorem merge_of_union_error {db : Database digest} {name : Bytes} {current r : Relation digest}
    {fault : Fault} (h : db.find? name = some current) (hunion : current.union r = .error fault) :
    db.merge name r = (.error fault, db) := by
  simp only [merge, relation_eq_ok_iff.mpr h, hunion]

theorem merge_eq_ok_iff {db db' : Database digest} {name : Bytes} {r : Relation digest} {n : Nat} :
    db.merge name r = (.ok n, db') ↔
      ∃ current, db.find? name = some current ∧ r.arity = current.arity ∧
        db' = db.put name (current.insertAll r.tuples) ∧
        n = (current.insertAll r.tuples).size - current.size := by
  cases hfound : db.find? name with
  | none => simp [merge, relation_eq_error hfound]
  | some current =>
      by_cases harity : r.arity = current.arity
      · rw [merge_of_union_ok hfound (Relation.union_eq_ok_iff.mpr ⟨harity, rfl⟩)]
        simp [harity, eq_comm, and_comm]
      · rw [merge_of_union_error hfound (if_neg harity)]
        simp [harity]

theorem growsBy_of_merge {db db' : Database digest} {name : Bytes} {r : Relation digest} {n : Nat}
    (hr : r.WellFormed) (h : db.merge name r = (.ok n, db')) : db.GrowsBy name r.tuples db' := by
  obtain ⟨current, hcurrent, harity, rfl, -⟩ := merge_eq_ok_iff.mp h
  exact ⟨current, hcurrent, fun t ht => (hr.arity t ht).trans harity, rfl⟩

/-- Merging counts the tuples that it adds. -/
theorem tupleCount_merge {db db' : Database digest} (hdb : db.WellFormed)
    {name : Bytes} {r : Relation digest} (hr : r.WellFormed) {n : Nat}
    (h : db.merge name r = (.ok n, db')) : db'.tupleCount = db.tupleCount + n := by
  obtain ⟨current, hcurrent, harity, rfl, rfl⟩ := merge_eq_ok_iff.mp h
  have hwell := Relation.wellFormed_insertAll (hdb.found hcurrent)
    fun t ht => (hr.arity t ht).trans harity
  have hname : current.name = name := hdb.named hcurrent
  have hcount := tupleCount_put hdb hcurrent hwell hname
  have hle := Relation.size_le_insertAll (hdb.found hcurrent) r.tuples
  omega

/-- A merge that counts nothing has found all tuples there. -/
theorem mem_model_of_merge_zero {db db' : Database digest} (hdb : db.WellFormed)
    {name : Bytes} {r : Relation digest} (h : db.merge name r = (.ok 0, db'))
    {t : Tuple} (ht : t ∈ r.tuples) : t ∈ db.model name := by
  obtain ⟨current, hcurrent, -, -, hsize⟩ := merge_eq_ok_iff.mp h
  exact ⟨current, hcurrent,
    Relation.mem_of_size_insertAll (hdb.found hcurrent) (Nat.sub_eq_zero_iff_le.mp hsize.symm) ht⟩

theorem addTuple_of_find? {db : Database digest} {name : Bytes} {r : Relation digest}
    (h : db.find? name = some r) (t : Tuple) :
    db.addTuple name t = ((r.addTuple t).1, db.put name (r.addTuple t).2) := by
  rw [addTuple, relation_eq_ok_iff.mpr h]

theorem addTuple_eq_ok_iff {db db' : Database digest} {name : Bytes} {t : Tuple} {new : Bool} :
    db.addTuple name t = (.ok new, db') ↔
      ∃ r, db.find? name = some r ∧ t.length = r.arity ∧
        db' = db.put name (r.insertAll [t]) ∧ new = !r.contains t := by
  cases hfound : db.find? name with
  | none => simp [addTuple, relation_eq_error hfound]
  | some r =>
      rw [addTuple_of_find? hfound]
      by_cases hlength : t.length = r.arity
      · rw [Relation.addTuple_eq_ok_iff.mpr ⟨hlength, rfl, rfl⟩]
        simp [hlength, eq_comm, and_comm]
      · simp [Relation.addTuple, hlength]

theorem growsBy_of_addTuple {db db' : Database digest} {name : Bytes} {t : Tuple} {new : Bool}
    (h : db.addTuple name t = (.ok new, db')) : db.GrowsBy name [t] db' := by
  obtain ⟨r, hr, hlength, rfl, -⟩ := addTuple_eq_ok_iff.mp h
  exact ⟨r, hr, by simpa using hlength, rfl⟩

theorem addFact_eq_ok_iff {db db' : Database digest} {fact : Atom} {new : Bool} :
    db.addFact fact = (.ok new, db') ↔
      fact.isGround = true ∧ db.addTuple fact.name (fact.terms.map (·.value)) = (.ok new, db') := by
  rw [addFact]
  by_cases hground : fact.isGround = true
  · simp [hground]
  · simp [hground]

theorem growsBy_of_addFact {db db' : Database digest} {fact : Atom} {new : Bool}
    (h : db.addFact fact = (.ok new, db')) :
    db.GrowsBy fact.name [fact.terms.map (·.value)] db' :=
  growsBy_of_addTuple (addFact_eq_ok_iff.mp h).2

/-! ## Declarations -/

theorem wellFormed_empty : (empty : Database digest).WellFormed where
  names := List.nodup_nil
  declared := fun name => by simp [names, has, empty]
  named := fun h => by simp [find?, empty] at h
  found := fun h => by simp [find?, empty] at h

theorem model_empty (name : Bytes) : (empty : Database digest).model name = ∅ := by
  ext t
  simp [mem_model, find?, empty]

theorem declare_eq_ok_iff {db db' : Database digest} {scheme : Atom} :
    db.declare scheme = (.ok (), db') ↔
      db.find? scheme.name = none ∧ scheme.terms.any (·.isConstant) = false ∧
        db' = db.putNew scheme.name (relationOf scheme) := by
  rw [declare, has_eq_isSome]
  cases hfound : db.find? scheme.name with
  | some r => simp
  | none =>
      cases hconstant : scheme.terms.any (·.isConstant) with
      | true => simp
      | false => simp [eq_comm]

theorem find?_putNew (db : Database digest) (name : Bytes) (r : Relation digest) (other : Bytes) :
    (db.putNew name r).find? other = (db.put name r).find? other :=
  rfl

theorem names_putNew (db : Database digest) (name : Bytes) (r : Relation digest) :
    (db.putNew name r).names = db.names ++ [name] :=
  rfl

section PutNew

variable {db : Database digest} {r : Relation digest}

theorem find?_putNew_of_some (hnone : db.find? r.name = none) {name : Bytes}
    {s : Relation digest} (hs : db.find? name = some s) :
    (db.putNew r.name r).find? name = some s := by
  have hname : name ≠ r.name := by
    rintro rfl
    cases hnone.symm.trans hs
  rw [find?_putNew, find?_put_of_ne db hname, hs]

theorem WellFormed.putNew (hdb : db.WellFormed) (hnone : db.find? r.name = none)
    (hr : r.WellFormed) : (db.putNew r.name r).WellFormed := by
  have hfresh : r.name ∉ db.names := by
    rw [hdb.declared, has_eq_isSome, hnone]
    exact Bool.false_ne_true
  constructor
  case names =>
    rw [names_putNew, ← List.concat_eq_append]
    exact hdb.names.concat hfresh
  case declared =>
    intro name
    have hhas := has_put db r.name r name
    rw [← hdb.declared] at hhas
    rw [names_putNew, List.mem_append, List.mem_singleton, or_comm]
    exact hhas.symm
  case named => exact forall_find?_put hdb.named rfl
  case found => exact forall_find?_put hdb.found hr

theorem WellFormed.relations_putNew (hdb : db.WellFormed) (hnone : db.find? r.name = none) :
    (db.putNew r.name r).relations = db.relations ++ [r] := by
  have hold : db.names.filterMap (db.putNew r.name r).find? = db.relations := by
    apply List.filterMap_congr
    intro name hname
    obtain ⟨s, hs⟩ := hdb.exists_find? hname
    rw [find?_putNew_of_some hnone hs, hs]
  calc (db.putNew r.name r).relations
      = db.names.filterMap (db.putNew r.name r).find? ++
          [r.name].filterMap (db.putNew r.name r).find? := List.filterMap_append
    _ = db.relations ++ [r] := by
        rw [hold, List.filterMap_cons, find?_putNew, find?_put_self]
        rfl

end PutNew

/-! ## Loading a program -/

theorem declare_spec {db db' : Database digest} (hdb : db.WellFormed) {scheme : Atom}
    (h : db.declare scheme = (.ok (), db')) : db'.WellFormed ∧ db'.model = db.model := by
  obtain ⟨hnone, -, rfl⟩ := declare_eq_ok_iff.mp h
  refine ⟨hdb.putNew (r := relationOf scheme) hnone (Relation.wellFormed_empty _ _), ?_⟩
  funext name
  ext t
  rw [mem_model, mem_model, find?_putNew, find?_put]
  by_cases hname : scheme.name = name
  · subst hname
    simp [hnone, relationOf, Relation.empty, Relation.tuples, TupleSet.empty, TupleSet.toList]
  · simp [hname]

theorem declareAll_cons_eq_ok_iff {db db' : Database digest} {scheme : Atom} {schemes : List Atom} :
    db.declareAll (scheme :: schemes) = .ok db' ↔
      ∃ declared, db.declare scheme = (.ok (), declared) ∧
        declared.declareAll schemes = .ok db' := by
  rw [declareAll]
  match db.declare scheme with
  | (.error fault, _) => simp
  | (.ok (), declared) => simp

theorem addFacts_cons_eq_ok_iff {db db' : Database digest} {fact : Atom} {facts : List Atom} :
    db.addFacts (fact :: facts) = .ok db' ↔
      ∃ new added, db.addFact fact = (.ok new, added) ∧ added.addFacts facts = .ok db' := by
  rw [addFacts]
  match db.addFact fact with
  | (.error fault, _) => simp
  | (.ok new, added) => simp

theorem declareAll_spec {db db' : Database digest} (hdb : db.WellFormed) {schemes : List Atom}
    (h : db.declareAll schemes = .ok db') : db'.WellFormed ∧ db'.model = db.model := by
  induction schemes generalizing db with
  | nil => exact Except.ok.inj h ▸ ⟨hdb, rfl⟩
  | cons scheme schemes ih =>
      obtain ⟨declared, hdeclared, hrest⟩ := declareAll_cons_eq_ok_iff.mp h
      obtain ⟨hwell, hmodel⟩ := declare_spec hdb hdeclared
      obtain ⟨hwell', hmodel'⟩ := ih hwell hrest
      exact ⟨hwell', hmodel'.trans hmodel⟩

theorem addFacts_spec {db db' : Database digest} (hdb : db.WellFormed) {facts : List Atom}
    (h : db.addFacts facts = .ok db') :
    db'.WellFormed ∧ ∀ name t, t ∈ db'.model name ↔
      t ∈ db.model name ∨ ∃ fact ∈ facts, name = fact.name ∧ t = fact.terms.map (·.value) := by
  induction facts generalizing db with
  | nil =>
      cases Except.ok.inj h
      exact ⟨hdb, by simp⟩
  | cons fact facts ih =>
      obtain ⟨new, added, hadded, hrest⟩ := addFacts_cons_eq_ok_iff.mp h
      have hgrows := growsBy_of_addFact hadded
      obtain ⟨hwell, hmodel⟩ := ih (hgrows.wellFormed hdb) hrest
      refine ⟨hwell, ?_⟩
      intro name t
      rw [hmodel, hgrows.mem_model hdb, List.exists_mem_cons_iff, List.mem_singleton, or_assoc]

/-- A loaded database is well formed and holds the facts of the program. -/
theorem load_spec {p : Program} {db : Database digest} (h : load p = .ok db) :
    db.WellFormed ∧ ∀ name t, t ∈ db.model name ↔
      ∃ fact ∈ p.facts, name = fact.name ∧ t = fact.terms.map (·.value) := by
  obtain ⟨declared, hdeclared, hfacts⟩ := bind_eq_ok_iff.mp h
  obtain ⟨hwell, hmodel⟩ := declareAll_spec wellFormed_empty hdeclared
  obtain ⟨hwell', hmodel'⟩ := addFacts_spec hwell hfacts
  refine ⟨hwell', ?_⟩
  intro name t
  rw [hmodel', hmodel, model_empty]
  simp

end Database

end LeastModel
