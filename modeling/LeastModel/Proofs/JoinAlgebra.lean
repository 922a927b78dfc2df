import LeastModel.Proofs.Loading
import LeastModel.Proofs.NestedLoop

/-!
# Brackets and operands of joins

To join rows is a partial operation, and an associative one: whichever two of
three rows are joined first, all of them have to agree, and each name takes its
value from the first row that has it (`Row.join?_assoc`). So the nested loops over
three relations come upon the same rows in the same order, however they are
bracketed. Exchanging the operands of one join exchanges the loops, which changes
the order of tuples and of columns and nothing else.

## Main statement

`Relation.Built.join_algebra`: the join is associative, and commutative up to the
order of tuples and columns where no attributes of one relation share a name.
-/

namespace LeastModel

/-! ## Rows -/

namespace Row

/-- A row, and behind it what the other has under new names. -/
def join (left right : Row) : Row := left ++ right.without left.names

/-- Rows are joined if they agree. -/
def join? (left right : Row) : Option Row :=
  if left.Agree right then some (left.join right) else none

theorem join?_eq_some_iff {left right row : Row} :
    left.join? right = some row ↔ left.Agree right ∧ left.join right = row := by
  rw [join?, Option.ite_none_right_eq_some, Option.some.injEq]

theorem names_join (left right : Row) :
    (left.join right).names = left.names ++ right.names.filter (· ∉ left.names) := by
  rw [join, names, List.map_append, ← names_without]
  rfl

theorem zip_names_values (row : Row) : row.names.zip row.values = row := by
  rw [names, values, List.zip_map', List.map_id']

theorem join_assoc (l u v : Row) : (l.join u).join v = l.join (u.join v) := by
  have hnames : v.without (l.join u).names = (v.without u.names).without l.names := by
    rw [without_eq, without_eq, without_eq, List.filter_filter]
    apply List.filter_congr
    intro p _
    by_cases hl : p.1 ∈ l.names <;> simp [names_join, hl]
  rw [join, hnames]
  simp [join, without]

theorem agree_append {l u v : Row} : Agree (l ++ u) v ↔ l.Agree v ∧ u.Agree v := by
  simp [Agree, or_imp, forall_and]

/-- Two rows that agree with a third one can differ only in what that one lacks. -/
theorem agree_without_iff {l u v : Row} (hu : l.Agree u) (hv : l.Agree v) :
    (u.without l.names).Agree v ↔ u.Agree v := by
  constructor
  · intro h p hp q hq hname
    by_cases hmem : p.1 ∈ l.names
    · obtain ⟨value, hvalue⟩ := exists_mem_of_mem_names hmem
      have hleft : value = p.2 := hu _ hvalue p hp rfl
      have hright : value = q.2 := hv _ hvalue q hq hname
      exact hleft.symm.trans hright
    · exact h p (mem_without.mpr ⟨hp, hmem⟩) q hq hname
  · exact fun h p hp => h p (mem_without.mp hp).1

/-- Agreeing with a join is agreeing with both rows, provided that these agree. -/
theorem join_agree_iff {l u v : Row} (h : l.Agree u) :
    (l.join u).Agree v ↔ l.Agree v ∧ u.Agree v := by
  rw [join, agree_append]
  exact and_congr_right fun hv => agree_without_iff h hv

theorem join?_assoc (l u v : Row) :
    (l.join? u).bind (·.join? v) = (u.join? v).bind (l.join? ·) := by
  ext row
  simp only [Option.bind_eq_some_iff, join?_eq_some_iff]
  constructor
  · rintro ⟨_, ⟨hlu, rfl⟩, hagree, rfl⟩
    obtain ⟨hlv, huv⟩ := (join_agree_iff hlu).mp hagree
    have hjoin := (join_agree_iff huv).mpr ⟨agree_comm.mp hlu, agree_comm.mp hlv⟩
    exact ⟨_, ⟨huv, rfl⟩, agree_comm.mp hjoin, (join_assoc l u v).symm⟩
  · rintro ⟨_, ⟨huv, rfl⟩, hagree, rfl⟩
    obtain ⟨hul, hvl⟩ := (join_agree_iff huv).mp (agree_comm.mp hagree)
    have hjoin := (join_agree_iff (agree_comm.mp hul)).mpr ⟨agree_comm.mp hvl, huv⟩
    exact ⟨_, ⟨agree_comm.mp hul, rfl⟩, hjoin, join_assoc l u v⟩

/-- Each row on the left with each row on the right, as far as they are joined. -/
def nestedLoop (left right : List Row) : List Row :=
  left.flatMap fun l => right.filterMap (l.join? ·)

theorem nestedLoop_assoc (left middle right : List Row) :
    nestedLoop (nestedLoop left middle) right = nestedLoop left (nestedLoop middle right) := by
  -- For one row on the left and one in the middle it is the same loop on the right.
  have hinner : ∀ l u : Row,
      (l.join? u).toList.flatMap (fun lu => right.filterMap (lu.join? ·)) =
        right.filterMap fun v => (u.join? v).bind (l.join? ·) := by
    intro l u
    simp only [← join?_assoc]
    cases l.join? u with
    | none => simp
    | some lu => simp
  simp only [nestedLoop, List.flatMap_assoc, List.filterMap_flatMap, List.filterMap_filterMap,
    List.filterMap_eq_flatMap_toList (_ : Row → Option Row) middle, hinner]

end Row

namespace Relation

variable {digest : Digest} {r s : Relation digest}

/-! ## Brackets -/

/-- The rows of a relation, in the order of its tuples. -/
def rows (r : Relation digest) : List Row := r.tuples.map r.row

theorem map_values_rows (hr : r.WellFormed) : r.rows.map (·.values) = r.tuples := by
  rw [rows, List.map_map]
  exact (List.map_congr_left fun t ht => values_row (hr.arity t ht)).trans (List.map_id _)

theorem row_joinPair {p : Tuple × Tuple} (hl : p.1.length = r.arity) (hu : p.2.length = s.arity) :
    (r.join s).row (r.joinPair s p) = (r.row p.1).join (s.row p.2) := by
  have hfresh : s.schema.filter (· ∉ r.schema) = ((s.row p.2).without r.schema).names := by
    rw [Row.names_without, names_row hu]
  rw [row, schema_join, joinPair, List.zip_append hl.symm, hfresh, Row.zip_names_values, Row.join,
    names_row hl]
  rfl

theorem rows_join (hr : r.WellFormed) (hs : s.WellFormed) :
    (r.join s).rows = Row.nestedLoop r.rows s.rows := by
  have hloop : Row.nestedLoop r.rows s.rows = r.tuples.flatMap fun l =>
      s.tuples.filterMap fun u => (r.row l).join? (s.row u) := by
    simp only [Row.nestedLoop, rows, List.flatMap_map, List.filterMap_map]
    rfl
  rw [hloop, rows, tuples_join hr hs, List.map_map, map_agreeingPairs]
  apply List.flatMap_congr
  intro l hl
  rw [← List.filterMap_eq_filter, List.map_filterMap]
  apply List.filterMap_congr
  intro u hu
  have hrow := row_joinPair (p := (l, u)) (hr.arity l hl) (hs.arity u hu)
  by_cases hagree : (r.row l).Agree (s.row u)
  · simp [Option.guard, Row.join?, hagree, hrow]
  · simp [Option.guard, Row.join?, hagree]

/-- A join is put together from its tuples as they are met. -/
theorem set_join (hr : r.WellFormed) (hs : s.WellFormed) :
    (r.join s).set = .ofList (r.join s).tuples := by
  rw [tuples_join hr hs, join_eq hr hs]

theorem eq_of_fields_eq {r s : Relation digest} (hname : r.name = s.name)
    (hschema : r.schema = s.schema) (hset : r.set = s.set) : r = s := by
  obtain ⟨name, schema, set⟩ := r
  cases hname
  cases hschema
  cases hset
  rfl

theorem join_assoc {a b c : Relation digest} (ha : a.WellFormed) (hb : b.WellFormed)
    (hc : c.WellFormed) : (a.join b).join c = a.join (b.join c) := by
  have hschema : ((a.join b).join c).schema = (a.join (b.join c)).schema := by
    simp only [schema_join, List.filter_append, List.filter_filter, List.append_assoc]
    congr 2
    apply List.filter_congr
    intro name _
    by_cases hname : name ∈ a.schema <;> simp [hname]
  have hrows : ((a.join b).join c).rows = (a.join (b.join c)).rows := by
    rw [rows_join (ha.join b) hc, rows_join ha hb, rows_join ha (hb.join c), rows_join hb hc,
      Row.nestedLoop_assoc]
  have htuples : ((a.join b).join c).tuples = (a.join (b.join c)).tuples := by
    rw [← map_values_rows ((ha.join b).join c), hrows, map_values_rows (ha.join (b.join c))]
  have hname : ((a.join b).join c).name = (a.join (b.join c)).name := rfl
  apply eq_of_fields_eq hname hschema
  rw [set_join (ha.join b) hc, htuples, set_join ha (hb.join c)]

/-! ## Operands -/

/-- The places of the attributes in the order of their names. -/
def placesByName (r : Relation digest) : List Nat :=
  (List.range r.arity).mergeSort fun i j => Bytes.le (r.schema.getD i []) (r.schema.getD j [])

/-- The relation with its columns in the order of their names. -/
def byName (r : Relation digest) : Relation digest := r.columns r.placesByName

theorem schema_byName (r : Relation digest) : r.byName.schema = r.schema.mergeSort Bytes.le := by
  have hnames : (List.range r.arity).map (fun i => r.schema.getD i []) = r.schema := by
    apply List.ext_getElem
    · simp [arity]
    · intro i _ hi
      simp [hi]
  have hsorted := List.map_mergeSort (l := List.range r.arity) (f := fun i => r.schema.getD i [])
    (s := Bytes.le) fun i _ j _ => rfl
  rw [hnames] at hsorted
  exact hsorted

/-- Where names differ, the columns in order hold the values of the same assignments. -/
theorem mem_byName (hr : r.WellFormed) (hschema : r.schema.Nodup) (t : Tuple) :
    t ∈ r.byName.tuples ↔ ∃ σ, t = r.byName.schema.map σ ∧ r.Holds σ := by
  have hplaces : ∀ i ∈ r.placesByName, i < r.schema.length := by
    simp [placesByName, arity]
  have hcolumns : ∀ σ, Tuple.columns (r.schema.map σ) r.placesByName = r.byName.schema.map σ :=
    Tuple.columns_map hplaces
  rw [byName, mem_columns]
  constructor
  · rintro ⟨u, hu, rfl⟩
    obtain ⟨σ, rfl, hσ⟩ := (hr.mem_iff_holds hschema u).mp hu
    exact ⟨σ, hcolumns σ, hσ⟩
  · rintro ⟨σ, rfl, hσ⟩
    exact ⟨_, hσ, hcolumns σ⟩

/-- Exchanging the relations exchanges the tuples of each pair that agrees. -/
theorem agreeingPairs_perm_swap (hr : r.WellFormed) (hs : s.WellFormed) :
    ((r.agreeingPairs s).map Prod.swap).Perm (s.agreeingPairs r) := by
  have hswap : ((r.agreeingPairs s).map Prod.swap).Nodup :=
    (nodup_agreeingPairs hr hs).map Prod.swap_injective
  rw [List.perm_ext_iff_of_nodup hswap (nodup_agreeingPairs hs hr)]
  rintro ⟨u, l⟩
  simp only [List.mem_map, Prod.exists, Prod.swap_prod_mk, Prod.mk.injEq, mem_agreeingPairs]
  constructor
  · rintro ⟨_, _, ⟨hl, hu, hagree⟩, rfl, rfl⟩
    exact ⟨hu, hl, Row.agree_comm.mp hagree⟩
  · rintro ⟨hu, hl, hagree⟩
    exact ⟨l, u, ⟨hl, hu, Row.agree_comm.mp hagree⟩, rfl, rfl⟩

theorem schema_join_perm (hr : r.schema.Nodup) (hs : s.schema.Nodup) :
    (r.join s).schema.Perm (s.join r).schema := by
  rw [List.perm_ext_iff_of_nodup (nodup_schema_join hr hs) (nodup_schema_join hs hr)]
  intro name
  simp only [schema_join, List.mem_append, List.mem_filter, decide_eq_true_eq]
  tauto

/-- Two relations have the same content: the same attributes, and with the columns
in the order of their names the same tuples. -/
structure SameContent (r s : Relation digest) : Prop where
  schema_perm : r.schema.Perm s.schema
  schema_byName : r.byName.schema = s.byName.schema
  mem_byName : ∀ t, t ∈ r.byName.tuples ↔ t ∈ s.byName.tuples
  size_eq : r.size = s.size

theorem join_sameContent (hr : r.WellFormed) (hs : s.WellFormed) (hrschema : r.schema.Nodup)
    (hsschema : s.schema.Nodup) : SameContent (r.join s) (s.join r) := by
  have hschema : (r.join s).byName.schema = (s.join r).byName.schema := by
    rw [schema_byName, schema_byName]
    exact mergeSort_eq_of_perm Bytes.le_iff (schema_join_perm hrschema hsschema)
  constructor
  case schema_perm => exact schema_join_perm hrschema hsschema
  case schema_byName => exact hschema
  case mem_byName =>
    intro t
    rw [mem_byName (hr.join s) (nodup_schema_join hrschema hsschema),
      mem_byName (hs.join r) (nodup_schema_join hsschema hrschema), hschema]
    simp only [holds_join hr hs, holds_join hs hr, and_comm]
  case size_eq =>
    rw [size_join hr hs, size_join hs hr, ← (agreeingPairs_perm_swap hr hs).length_eq,
      List.length_map]

/-- Brackets do not matter, and the order of the operands only for the order of
tuples and columns. -/
theorem Built.join_algebra {a b c : Relation digest} (ha : a.Built) (hb : b.Built) (hc : c.Built) :
    (a.join b).join c = a.join (b.join c) ∧
      (a.schema.Nodup → b.schema.Nodup → SameContent (a.join b) (b.join a)) :=
  ⟨join_assoc ha.wellFormed hb.wellFormed hc.wellFormed,
    join_sameContent ha.wellFormed hb.wellFormed⟩

/-- One name is in all three relations, and another one in the outer two. -/
theorem join_algebra_sharedNames :
    let a : Relation fun _ => 0 :=
      (empty "a" ["k", "x"]).insertAll [["1", "p"], ["2", "q"], ["1", "q"]]
    let b : Relation fun _ => 0 := (empty "b" ["y", "k"]).insertAll [["u", "2"], ["v", "1"]]
    let c : Relation fun _ => 0 :=
      (empty "c" ["x", "k"]).insertAll [["q", "1"], ["q", "2"], ["p", "2"]]
    (a.Built ∧ b.Built ∧ c.Built) ∧ (a.schema.Nodup ∧ b.schema.Nodup) ∧
      (a.join b).join c = a.join (b.join c) ∧ SameContent (a.join b) (b.join a) ∧
      (a.join (b.join c)).tuples = ([["2", "q", "u"], ["1", "q", "v"]] : List Tuple) := by
  intro a b c
  have ha : a.Built := .insertAll_empty (by decide)
  have hb : b.Built := .insertAll_empty (by decide)
  have hc : c.Built := .insertAll_empty (by decide)
  have haschema : a.schema.Nodup := by decide
  have hbschema : b.schema.Nodup := by decide
  obtain ⟨hassoc, hcomm⟩ := Built.join_algebra ha hb hc
  exact ⟨⟨ha, hb, hc⟩, ⟨haschema, hbschema⟩, hassoc, hcomm haschema hbschema, by decide +kernel⟩

end Relation

end LeastModel
