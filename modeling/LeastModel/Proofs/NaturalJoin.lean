import LeastModel.Proofs.Relation

/-!
# The natural join

A relation *holds* under an assignment of values to attribute names when it has
the tuple of the values of its attributes. Read this way the join is a
conjunction (`holds_join`), whatever the digest puts into the same bucket.
-/

namespace LeastModel

namespace Tuple

theorem value_eq_of_getElem? {t : Tuple} {i : Nat} {v : Bytes} (h : t[i]? = some v) :
    t.value i = v := by
  rw [value, List.getD_eq_getElem?_getD, h, Option.getD_some]

theorem ext_value
    {t u : Tuple} (hlength : t.length = u.length)
    (h : ∀ i < t.length, t.value i = u.value i) : t = u := by
  apply List.ext_getElem hlength
  intro i ht hu
  have hi := h i ht
  rwa [value_eq_of_getElem? (List.getElem?_eq_getElem ht),
    value_eq_of_getElem? (List.getElem?_eq_getElem hu)] at hi

theorem value_map
    {names : List Bytes} {i : Nat} {name : Bytes} (h : names[i]? = some name)
    (σ : Bytes → Bytes) : value (names.map σ) i = σ name := by
  apply value_eq_of_getElem?
  rw [List.getElem?_map, h, Option.map_some]

/-- Columns of the values of names are the values of the columns. -/
theorem columns_map
    {names : List Bytes} {places : List Nat} (hplaces : ∀ i ∈ places, i < names.length)
    (σ : Bytes → Bytes) :
    columns (names.map σ) places = (places.map fun i => names.getD i []).map σ := by
  rw [columns, List.map_map]
  apply List.map_congr_left
  intro i hi
  have hname := List.getElem?_eq_getElem (hplaces i hi)
  rw [value_map hname, Function.comp, List.getD_eq_getElem?_getD, hname, Option.getD_some]

/-- A tuple over different names assigns its values to them. -/
theorem exists_eq_map
    {names : List Bytes} (hnames : names.Nodup) {t : Tuple} (hlength : t.length = names.length) :
    ∃ σ : Bytes → Bytes, t = names.map σ := by
  refine ⟨fun name => t.value (names.idxOf name), ext_value (by simpa using hlength) ?_⟩
  intro i hi
  have hname := List.getElem?_eq_getElem (hlength ▸ hi)
  rw [value_map hname, hnames.idxOf_getElem]

end Tuple

namespace Relation

variable {digest : Digest}

/-- The relation has the tuple of the values of its attributes. -/
def Holds (r : Relation digest) (σ : Bytes → Bytes) : Prop := r.schema.map σ ∈ r.tuples

/-- When attributes have different names, every tuple comes from an assignment. -/
theorem WellFormed.mem_iff_holds
    {r : Relation digest} (hr : r.WellFormed) (hschema : r.schema.Nodup) (t : Tuple) :
    t ∈ r.tuples ↔ ∃ σ, t = r.schema.map σ ∧ r.Holds σ := by
  constructor
  · intro ht
    obtain ⟨σ, hσ⟩ := Tuple.exists_eq_map hschema (hr.arity t ht)
    rw [hσ] at ht
    exact ⟨σ, hσ, ht⟩
  · rintro ⟨σ, rfl, hσ⟩
    exact hσ

/-! ## Places -/

theorem mem_sharedPlaces (left right : List Bytes) (i j : Nat) :
    (i, j) ∈ sharedPlaces left right ↔ ∃ name, left[i]? = some name ∧ right[j]? = some name := by
  simp only [sharedPlaces, List.mem_flatMap, List.mem_filterMap, Prod.exists,
    List.mem_zipIdx_iff_getElem?]
  constructor
  · rintro ⟨name, j', hj, leftName, i', hi, hif⟩
    split at hif
    · rename_i hname
      cases hif
      exact ⟨name, (beq_iff_eq.mp hname) ▸ hi, hj⟩
    · cases hif
  · rintro ⟨name, hi, hj⟩
    exact ⟨name, j, hj, name, i, hi, by simp⟩

theorem mem_freshPlaces (left right : List Bytes) (j : Nat) :
    j ∈ freshPlaces left right ↔ ∃ name, right[j]? = some name ∧ name ∉ left := by
  simp only [freshPlaces, List.mem_filterMap, Prod.exists, List.mem_zipIdx_iff_getElem?]
  constructor
  · rintro ⟨name, j', hj, hif⟩
    split at hif
    · cases hif
    · rename_i hname
      cases hif
      exact ⟨name, hj, by simpa using hname⟩
  · rintro ⟨name, hj, hname⟩
    exact ⟨name, j, hj, by simp [hname]⟩

/-- The attributes at the fresh places are the names that are new. -/
theorem freshPlaces_names (left right : List Bytes) :
    (freshPlaces left right).map (fun j => right.getD j []) = right.filter (· ∉ left) := by
  have hname : ∀ p ∈ right.zipIdx,
      (if left.contains p.1 then none else some p.2).map (fun j => right.getD j []) =
        if p.1 ∉ left then some p.1 else none := by
    rintro ⟨name, j⟩ hp
    have hj := List.mem_zipIdx_iff_getElem?.mp hp
    by_cases hleft : name ∈ left
    · simp [hleft]
    · simp [hleft, List.getD_eq_getElem?_getD, hj]
  calc (freshPlaces left right).map (fun j => right.getD j [])
      = right.zipIdx.filterMap (fun p => if p.1 ∉ left then some p.1 else none) := by
        rw [freshPlaces, List.map_filterMap]
        exact List.filterMap_congr hname
    _ = (right.zipIdx.map Prod.fst).filterMap
          (fun name => if name ∉ left then some name else none) := by
        rw [List.filterMap_map]
        rfl
    _ = right.filter (· ∉ left) := by
        rw [List.zipIdx_map_fst, ← List.filterMap_eq_filter]
        apply List.filterMap_congr
        intro name _
        simp [Option.guard]

/-! ## Joins -/

theorem getD_buckets (places : List Nat) (ts : List Tuple) (h : UInt64) :
    (buckets digest places ts).getD h [] =
      ts.filter fun t => (t.columns places).hash digest == h := by
  induction ts with
  | nil => simp [buckets]
  | cons t ts ih =>
      have hcons : buckets digest places (t :: ts) =
          (buckets digest places ts).insert ((t.columns places).hash digest)
            (t :: (buckets digest places ts).getD ((t.columns places).hash digest) []) := rfl
      rw [hcons, Std.TreeMap.getD_insert]
      by_cases hh : (t.columns places).hash digest = h
      · simp [hh, ih]
      · simp [hh, ih]

/-- The join pairs each tuple of `r` with the tuples of `s` that agree with it. -/
theorem mem_join (r s : Relation digest) (t : Tuple) :
    t ∈ (r.join s).tuples ↔
      ∃ l ∈ r.tuples, ∃ u ∈ s.tuples,
        (∀ p ∈ sharedPlaces r.schema s.schema, l.value p.1 = u.value p.2) ∧
          t = l ++ u.columns (freshPlaces r.schema s.schema) := by
  rw [join, tuples, TupleSet.mem_ofList]
  simp only [List.mem_flatMap, List.mem_map, List.mem_filter, getD_buckets, beq_iff_eq]
  constructor
  · rintro ⟨l, hl, u, ⟨⟨hu, -⟩, hagree⟩, rfl⟩
    refine ⟨l, hl, u, hu, ?_, rfl⟩
    simpa [Tuple.columns] using hagree
  · rintro ⟨l, hl, u, hu, hagree, rfl⟩
    have hcolumns : l.columns ((sharedPlaces r.schema s.schema).map (·.1)) =
        u.columns ((sharedPlaces r.schema s.schema).map (·.2)) := by
      simpa [Tuple.columns] using hagree
    exact ⟨l, hl, u, ⟨⟨hu, by rw [hcolumns]⟩, hcolumns⟩, rfl⟩

theorem schema_join (r s : Relation digest) :
    (r.join s).schema = r.schema ++ s.schema.filter (· ∉ r.schema) := by
  rw [← freshPlaces_names]
  rfl

/-- The join holds where both relations hold. -/
theorem holds_join
    {r s : Relation digest} (hr : r.WellFormed) (hs : s.WellFormed) (σ : Bytes → Bytes) :
    (r.join s).Holds σ ↔ r.Holds σ ∧ s.Holds σ := by
  have hfresh : ∀ j ∈ freshPlaces r.schema s.schema, j < s.schema.length := by
    intro j hj
    obtain ⟨name, hname, -⟩ := (mem_freshPlaces _ _ j).mp hj
    exact (List.getElem?_eq_some_iff.mp hname).1
  have hright : (s.schema.filter (· ∉ r.schema)).map σ =
      Tuple.columns (s.schema.map σ) (freshPlaces r.schema s.schema) := by
    rw [Tuple.columns_map hfresh, freshPlaces_names]
  rw [Holds, mem_join, schema_join, List.map_append, hright]
  constructor
  · rintro ⟨l, hl, u, hu, hagree, heq⟩
    obtain ⟨hleft, hcolumns⟩ := List.append_inj heq (by simpa [arity] using (hr.arity l hl).symm)
    subst hleft
    refine ⟨hl, ?_⟩
    -- At a shared place `u` agrees with the left tuple, at any other with the join.
    have hu_eq : u = s.schema.map σ := by
      apply Tuple.ext_value (by simpa [arity] using hs.arity u hu)
      intro j hj
      have hlt : j < s.schema.length := Nat.lt_of_lt_of_eq hj (hs.arity u hu)
      have hname := List.getElem?_eq_getElem hlt
      rw [Tuple.value_map hname]
      by_cases hmem : s.schema[j] ∈ r.schema
      · obtain ⟨i, hi⟩ := List.getElem?_of_mem hmem
        have hshared := (mem_sharedPlaces _ _ i j).mpr ⟨_, hi, hname⟩
        rw [← hagree (i, j) hshared, Tuple.value_map hi]
      · have hjfresh := (mem_freshPlaces _ _ j).mpr ⟨_, hname, hmem⟩
        have hvalue := List.map_inj_left.mp hcolumns j hjfresh
        rw [← hvalue, Tuple.value_map hname]
    rwa [hu_eq] at hu
  · rintro ⟨hl, hu⟩
    refine ⟨_, hl, _, hu, ?_, rfl⟩
    rintro ⟨i, j⟩ hij
    obtain ⟨name, hi, hj⟩ := (mem_sharedPlaces _ _ i j).mp hij
    rw [Tuple.value_map hi, Tuple.value_map hj]

theorem nodup_schema_join
    {r s : Relation digest} (hr : r.schema.Nodup) (hs : s.schema.Nodup) :
    (r.join s).schema.Nodup := by
  rw [schema_join]
  refine hr.append (hs.filter _) ?_
  intro name hname hfresh
  have hnot := (List.mem_filter.mp hfresh).2
  exact of_decide_eq_true hnot hname

end Relation

end LeastModel
