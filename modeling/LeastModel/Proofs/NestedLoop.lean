import LeastModel.Proofs.NaturalJoin
import LeastModel.Proofs.Representation
import Mathlib.Data.List.ProdSigma

/-!
# The join as a nested loop

A row is a tuple with the names of its attributes beside its values. Two rows
agree when they have the same value wherever they have the same name, and then
they are joined by putting behind the one what the other has under new names.
Since only what agrees is left out, rows that are joined to the same row of the
left cannot give the same result (`Row.ext_of_agree`): nothing is lost when the
results are put into a set.

## Main statement

`Relation.Built.join_isNestedLoop`: the join goes through all pairs of tuples, the
left one in the outer loop, and has one tuple for each pair that agrees.
-/

namespace LeastModel

/-! ## Rows -/

/-- Values beside the names of their attributes. -/
abbrev Row := List (Bytes × Bytes)

namespace Row

def names (row : Row) : List Bytes := row.map (·.1)

def values (row : Row) : Tuple := row.map (·.2)

/-- Wherever the rows have the same name, they have the same value. -/
def Agree (left right : Row) : Prop := ∀ p ∈ left, ∀ q ∈ right, p.1 = q.1 → p.2 = q.2

instance (left right : Row) : Decidable (left.Agree right) :=
  inferInstanceAs (Decidable (∀ p ∈ left, ∀ q ∈ right, p.1 = q.1 → p.2 = q.2))

/-- What a row has under other names than the given ones. -/
def without (row : Row) (names : List Bytes) : Row := row.filter (!names.contains ·.1)

theorem without_eq (row : Row) (names : List Bytes) :
    row.without names = row.filter (·.1 ∉ names) :=
  List.filter_congr fun p _ => by simp

theorem mem_without {row : Row} {names : List Bytes} {p : Bytes × Bytes} :
    p ∈ row.without names ↔ p ∈ row ∧ p.1 ∉ names := by
  rw [without_eq, List.mem_filter, decide_eq_true_iff]

theorem without_cons (p : Bytes × Bytes) (row : Row) (names : List Bytes) :
    without (p :: row) names =
      if p.1 ∈ names then row.without names else p :: row.without names := by
  by_cases h : p.1 ∈ names <;> simp [without, h]

theorem names_without (row : Row) (names : List Bytes) :
    (row.without names).names = row.names.filter (· ∉ names) := by
  rw [without_eq, Row.names, Row.names, List.filter_map]
  rfl

theorem exists_mem_of_mem_names {row : Row} {name : Bytes} (h : name ∈ row.names) :
    ∃ value, (name, value) ∈ row := by
  obtain ⟨⟨_, value⟩, hmem, rfl⟩ := List.mem_map.mp h
  exact ⟨value, hmem⟩

theorem agree_comm {left right : Row} : left.Agree right ↔ right.Agree left :=
  ⟨fun h p hp q hq hname => (h q hq p hp hname.symm).symm,
    fun h p hp q hq hname => (h q hq p hp hname.symm).symm⟩

/-- A row is determined by a row that it agrees with and what it has besides. -/
theorem ext_of_agree {left right right' : Row} (hnames : right.names = right'.names)
    (h : left.Agree right) (h' : left.Agree right')
    (hvalues : (right.without left.names).values = (right'.without left.names).values) :
    right = right' := by
  induction right generalizing right' with
  | nil => exact (List.map_eq_nil_iff.mp hnames.symm).symm
  | cons p right ih =>
      match right' with
      | [] => cases hnames
      | q :: right' =>
          obtain ⟨hname, hnames⟩ := List.cons.inj hnames
          have hname : p.1 = q.1 := hname
          have hrest := fun hvalues => ih hnames
            (fun p' hp' q' hq' => h p' hp' q' (List.mem_cons_of_mem _ hq'))
            (fun p' hp' q' hq' => h' p' hp' q' (List.mem_cons_of_mem _ hq')) hvalues
          by_cases hmem : p.1 ∈ left.names
          · obtain ⟨value, hvalue⟩ := exists_mem_of_mem_names hmem
            have hp : value = p.2 := h _ hvalue p List.mem_cons_self rfl
            have hq : value = q.2 := h' _ hvalue q List.mem_cons_self hname
            have hmem' : q.1 ∈ left.names := hname ▸ hmem
            rw [without_cons, without_cons, if_pos hmem, if_pos hmem'] at hvalues
            rw [Prod.ext hname (hp.symm.trans hq), hrest hvalues]
          · have hmem' : q.1 ∉ left.names := hname ▸ hmem
            rw [without_cons, without_cons, if_neg hmem, if_neg hmem'] at hvalues
            obtain ⟨hvalue, hvalues⟩ := List.cons.inj hvalues
            rw [Prod.ext hname hvalue, hrest hvalues]

end Row

namespace Relation

variable {digest : Digest} {r s : Relation digest}

/-- A tuple of a relation with the names of the attributes. -/
def row (r : Relation digest) (t : Tuple) : Row := r.schema.zip t

theorem names_row {t : Tuple} (h : t.length = r.arity) : (r.row t).names = r.schema :=
  List.map_fst_zip (Nat.le_of_eq h.symm)

theorem values_row {t : Tuple} (h : t.length = r.arity) : (r.row t).values = t :=
  List.map_snd_zip (Nat.le_of_eq h)

/-- The row in the order of the places. -/
theorem row_eq_zipIdx {t : Tuple} (h : t.length = r.arity) :
    r.row t = r.schema.zipIdx.map fun p => (p.1, t.value p.2) := by
  apply List.ext_getElem
  · simp [row, h, arity]
  · intro i hi hi'
    have hlt : i < t.length := by
      rw [row, List.length_zip] at hi
      omega
    simp [row, Tuple.value_eq_of_getElem? (List.getElem?_eq_getElem hlt)]

theorem mem_row {t : Tuple} (h : t.length = r.arity) {name value : Bytes} :
    (name, value) ∈ r.row t ↔ ∃ i, r.schema[i]? = some name ∧ t.value i = value := by
  simp [row_eq_zipIdx h, List.mem_zipIdx_iff_getElem?]

/-! ## Pairs of tuples -/

/-- The pairs of tuples that agree, in the order of the loop over the left tuples
with the loop over the right ones inside of it. -/
def agreeingPairs (r s : Relation digest) : List (Tuple × Tuple) :=
  (r.tuples ×ˢ s.tuples).filter fun p => (r.row p.1).Agree (s.row p.2)

/-- A left tuple, and behind it what the right one has under new names. -/
def joinPair (r s : Relation digest) (p : Tuple × Tuple) : Tuple :=
  p.1 ++ ((s.row p.2).without r.schema).values

theorem mem_agreeingPairs {p : Tuple × Tuple} :
    p ∈ r.agreeingPairs s ↔
      p.1 ∈ r.tuples ∧ p.2 ∈ s.tuples ∧ (r.row p.1).Agree (s.row p.2) := by
  rw [agreeingPairs, List.mem_filter, List.mem_product, decide_eq_true_iff, and_assoc]

theorem nodup_agreeingPairs (hr : r.WellFormed) (hs : s.WellFormed) :
    (r.agreeingPairs s).Nodup :=
  (hr.set.nodup.product hs.set.nodup).filter _

/-- Different pairs are joined to different tuples. -/
theorem joinPair_injective (hr : r.WellFormed) (hs : s.WellFormed) :
    ∀ p ∈ r.agreeingPairs s, ∀ q ∈ r.agreeingPairs s,
      r.joinPair s p = r.joinPair s q → p = q := by
  rintro ⟨l, u⟩ hp ⟨l', u'⟩ hp' heq
  obtain ⟨hl, hu, hagree⟩ := mem_agreeingPairs.mp hp
  obtain ⟨hl', hu', hagree'⟩ := mem_agreeingPairs.mp hp'
  obtain ⟨rfl, hvalues⟩ := List.append_inj heq ((hr.arity l hl).trans (hr.arity l' hl').symm)
  have hnames := (names_row (hs.arity u hu)).trans (names_row (hs.arity u' hu')).symm
  rw [← names_row (hr.arity l hl)] at hvalues
  have hrow := Row.ext_of_agree hnames hagree hagree' hvalues
  rw [← values_row (hs.arity u hu), hrow, values_row (hs.arity u' hu')]

/-! ## The hash join -/

theorem columns_sharedPlaces_iff {l u : Tuple} (hl : l.length = r.arity)
    (hu : u.length = s.arity) :
    l.columns ((sharedPlaces r.schema s.schema).map (·.1)) =
        u.columns ((sharedPlaces r.schema s.schema).map (·.2)) ↔
      (r.row l).Agree (s.row u) := by
  simp only [Tuple.columns, List.map_map, List.map_inj_left, Function.comp, Prod.forall,
    mem_sharedPlaces]
  constructor
  · rintro h ⟨name, v⟩ hp ⟨_, w⟩ hq rfl
    obtain ⟨i, hi, rfl⟩ := (mem_row hl).mp hp
    obtain ⟨j, hj, rfl⟩ := (mem_row hu).mp hq
    exact h i j ⟨name, hi, hj⟩
  · rintro h i j ⟨name, hi, hj⟩
    exact h (name, _) ((mem_row hl).mpr ⟨i, hi, rfl⟩) (name, _) ((mem_row hu).mpr ⟨j, hj, rfl⟩)
      rfl

theorem columns_freshPlaces {u : Tuple} (hu : u.length = s.arity) (names : List Bytes) :
    u.columns (freshPlaces names s.schema) = ((s.row u).without names).values := by
  rw [row_eq_zipIdx hu, Row.without_eq, Row.values, Tuple.columns, freshPlaces, List.filter_map,
    List.map_map, List.map_filterMap, ← List.filterMap_eq_map, List.filterMap_filter]
  apply List.filterMap_congr
  rintro ⟨name, j⟩ -
  by_cases hname : name ∈ names <;> simp [hname]

/-- The pairs are met in a loop over the right tuples inside of a loop over the left ones. -/
theorem map_agreeingPairs {α : Type} (f : Tuple × Tuple → α) :
    (r.agreeingPairs s).map f = r.tuples.flatMap fun l =>
      (s.tuples.filter fun u => (r.row l).Agree (s.row u)).map fun u => f (l, u) := by
  simp only [agreeingPairs, SProd.sprod, List.product, List.filter_flatMap, List.map_flatMap,
    List.filter_map, List.map_map]
  rfl

/-- Nothing that agrees is missed for lying in another bucket. -/
theorem join_eq (hr : r.WellFormed) (hs : s.WellFormed) :
    r.join s = {
      name := r.name
      schema := r.schema ++ s.schema.filter (· ∉ r.schema)
      set := .ofList ((r.agreeingPairs s).map (r.joinPair s)) } := by
  rw [join, freshPlaces_names, map_agreeingPairs]
  refine congrArg (fun ts => Relation.mk r.name _ (TupleSet.ofList ts : TupleSet digest)) ?_
  apply List.flatMap_congr
  intro l hl
  rw [getD_buckets, List.filter_filter]
  have hkeep : ∀ u ∈ s.tuples,
      (l.columns ((sharedPlaces r.schema s.schema).map (·.1)) ==
          u.columns ((sharedPlaces r.schema s.schema).map (·.2)) &&
        (u.columns ((sharedPlaces r.schema s.schema).map (·.2))).hash digest ==
          (l.columns ((sharedPlaces r.schema s.schema).map (·.1))).hash digest) =
      decide ((r.row l).Agree (s.row u)) := by
    intro u hu
    have hiff := columns_sharedPlaces_iff (hr.arity l hl) (hs.arity u hu)
    rw [Bool.eq_iff_iff, Bool.and_eq_true, beq_iff_eq, beq_iff_eq, decide_eq_true_iff, ← hiff]
    exact and_iff_left_of_imp fun heq => by rw [heq]
  rw [List.filter_congr hkeep]
  apply List.map_congr_left
  intro u hu
  rw [joinPair, columns_freshPlaces (hs.arity u (List.mem_of_mem_filter hu))]

theorem tuples_join (hr : r.WellFormed) (hs : s.WellFormed) :
    (r.join s).tuples = (r.agreeingPairs s).map (r.joinPair s) := by
  rw [join_eq hr hs]
  exact TupleSet.toList_ofList_of_nodup
    ((nodup_agreeingPairs hr hs).map_on (joinPair_injective hr hs))

theorem size_join (hr : r.WellFormed) (hs : s.WellFormed) :
    (r.join s).size = (r.agreeingPairs s).length := by
  rw [size_eq_length, tuples_join hr hs, List.length_map]

/-- What the nested loop over two relations gives. -/
structure IsNestedLoop (r s j : Relation digest) : Prop where
  name_eq : j.name = r.name
  schema_eq : j.schema = r.schema ++ s.schema.filter (· ∉ r.schema)
  tuples_eq : j.tuples = (r.agreeingPairs s).map (r.joinPair s)
  /-- No two pairs give the same tuple. -/
  injective : ∀ p ∈ r.agreeingPairs s, ∀ q ∈ r.agreeingPairs s,
    r.joinPair s p = r.joinPair s q → p = q
  size_eq : j.size = (r.agreeingPairs s).length

theorem Built.join_isNestedLoop (hr : r.Built) (hs : s.Built) : IsNestedLoop r s (r.join s) where
  name_eq := rfl
  schema_eq := schema_join r s
  tuples_eq := tuples_join hr.wellFormed hs.wellFormed
  injective := joinPair_injective hr.wellFormed hs.wellFormed
  size_eq := size_join hr.wellFormed hs.wellFormed

/-- Names that occur twice on either side: a shared one has to have equal values
everywhere, and the others stay apart. -/
theorem join_isNestedLoop_repeatedNames :
    let r : Relation fun _ => 0 :=
      (empty "r" ["x", "x", "y"]).insertAll [["1", "1", "a"], ["1", "2", "a"], ["2", "2", "b"]]
    let s : Relation fun _ => 0 :=
      (empty "s" ["z", "x", "z"]).insertAll
        [["p", "2", "q"], ["p", "1", "q"], ["q", "1", "q"], ["q", "3", "q"]]
    r.Built ∧ s.Built ∧ IsNestedLoop r s (r.join s) ∧
      (r.join s).tuples = ([["1", "1", "a", "p", "q"], ["1", "1", "a", "q", "q"],
        ["2", "2", "b", "p", "q"]] : List Tuple) := by
  intro r s
  have hr : r.Built := .insertAll_empty (by decide)
  have hs : s.Built := .insertAll_empty (by decide)
  exact ⟨hr, hs, hr.join_isNestedLoop hs, by decide +kernel⟩

end Relation

end LeastModel
