import LeastModel.Proofs.DependencyOrder
import LeastModel.Proofs.FirstOccurrences
import Mathlib.Data.List.Sort

/-!
# Edge lists and their order

The edges of the dependency graph, and those of the graph turned around, are
given as the places at which something holds, so they ascend. The same lists
come about in other ways. `gathered` follows the atoms of a body, takes each
rule that derives the relation of an atom once, and sorts at the end.
`scattered` passes over the edges of a graph, adds the source of each to the
list of its target, and sorts nothing.

Both are compared list by list. Two ascending lists with the same elements are
equal, so the order in which a list was put together does not matter; and the
sources are passed over in ascending order, so each list that they are added to
ascends at any time.
-/

namespace LeastModel

namespace Graph

/-! ## Places -/

section Places

variable {α : Type}

/-- The places of a list at which `p` holds. -/
def placesWhere (p : α → Bool) (xs : List α) : List Nat :=
  xs.zipIdx.filterMap fun (x, i) => if p x then some i else none

theorem mem_placesWhere {p : α → Bool} {xs : List α} {i : Nat} :
    i ∈ placesWhere p xs ↔ ∃ x, xs[i]? = some x ∧ p x = true := by
  simp only [placesWhere, List.mem_filterMap, Prod.exists, List.mem_zipIdx_iff_getElem?]
  constructor
  · rintro ⟨x, k, hx, hif⟩
    split at hif
    · rename_i hp
      cases hif
      exact ⟨x, hx, hp⟩
    · cases hif
  · rintro ⟨x, hx, hp⟩
    exact ⟨x, i, hx, if_pos hp⟩

theorem pairwise_placesWhere (p : α → Bool) (xs : List α) :
    (placesWhere p xs).Pairwise (· < ·) := by
  have hplaces : (xs.zipIdx.map Prod.snd).Pairwise (· < ·) := by
    rw [List.zipIdx_map_snd]
    exact List.pairwise_lt_range' 1
  refine List.pairwise_filterMap.mpr ((List.pairwise_map.mp hplaces).imp ?_)
  rintro ⟨x, i⟩ ⟨y, j⟩ hlt k hk l hl
  obtain ⟨-, ⟨⟩⟩ := Option.ite_none_right_eq_some.mp hk
  obtain ⟨-, ⟨⟩⟩ := Option.ite_none_right_eq_some.mp hl
  exact hlt

end Places

/-! ## Edge lists -/

theorem ext_edges
    {g h : Graph} (hsize : g.size = h.size) (hedges : ∀ i < g.size, g.edges i = h.edges i) :
    g = h := by
  obtain ⟨gs⟩ := g
  obtain ⟨hs⟩ := h
  congr 1
  refine List.ext_getElem hsize fun i hi hi' => ?_
  simpa [edges, hi, hi', List.getD_eq_getElem?_getD] using hedges i hi

/-- The edge lists of `g` ascend. -/
def Ascends (g : Graph) : Prop := ∀ i, (g.edges i).Pairwise (· < ·)

theorem ascends_ofRules (rules : List Rule) : (ofRules rules).Ascends := by
  intro i
  rw [edges, ofRules, List.getD_eq_getElem?_getD, List.getElem?_map]
  cases rules[i]? with
  | none => exact List.Pairwise.nil
  | some reader =>
      exact pairwise_placesWhere (fun writer => reader.body.any (·.name == writer.head.name)) rules

theorem edges_reverse {g : Graph} {j : Nat} (hj : j < g.size) :
    g.reverse.edges j = placesWhere (·.contains j) g.successors := by
  rw [edges, reverse, List.getD_eq_getElem?_getD, List.getElem?_map, List.getElem?_range hj]
  rfl

theorem ascends_reverse (g : Graph) : g.reverse.Ascends := by
  intro j
  by_cases hj : j < g.size
  · rw [edges_reverse hj]
    exact pairwise_placesWhere _ _
  · rw [edges_eq_nil (by simpa using hj)]
    exact List.Pairwise.nil

theorem inRange_ofRules (rules : List Rule) : (ofRules rules).InRange := by
  intro targets htargets j hj
  obtain ⟨i, hi⟩ := List.getElem?_of_mem htargets
  have hedge : j ∈ (ofRules rules).edges i := by
    rwa [edges, List.getD_eq_getElem?_getD, hi]
  rw [Plan.size_ofRules]
  exact ((Plan.mem_edges_ofRules rules i j).mp hedge).lt_length.2

/-- Turning the edges around twice gives them back in their order, if they
ascend. -/
theorem reverse_reverse {g : Graph} (hrange : g.InRange) (hascends : g.Ascends) :
    g.reverse.reverse = g := by
  refine ext_edges (by simp) fun i _ => ?_
  refine (g.reverse.ascends_reverse i).eq_of_mem_iff (hascends i) fun j => ?_
  rw [mem_edges_reverse, mem_edges_reverse, size_reverse]
  constructor
  · exact fun h => h.2.2
  · exact fun hj => ⟨lt_size_of_mem_edges hj, hrange.lt_size hj, hj⟩

/-! ## Gathering dependencies -/

/-- The rules that derive a relation. -/
def writersOf (rules : List Rule) (name : Bytes) : List Nat :=
  placesWhere (·.head.name == name) rules

/-- The dependency graph, put together from the atoms of each body. -/
def gathered (rules : List Rule) : Graph :=
  ⟨rules.map fun reader =>
    (reader.body.flatMap (writersOf rules ·.name)).eraseDups.mergeSort⟩

theorem pairwise_lt_mergeSort {xs : List Nat} (h : xs.Nodup) :
    xs.mergeSort.Pairwise (· < ·) := by
  have hle : xs.mergeSort.Pairwise (fun a b => decide (a ≤ b) = true) :=
    List.pairwise_mergeSort (by simp; omega) (by simp; omega) xs
  have hne : xs.mergeSort.Pairwise (· ≠ ·) := (List.mergeSort_perm xs _).nodup_iff.mpr h
  exact (hle.and hne).imp fun h => Nat.lt_of_le_of_ne (by simpa using h.1) h.2

/-- Following the atoms gives the same edges in the same order. -/
theorem gathered_eq_ofRules (rules : List Rule) : gathered rules = ofRules rules := by
  have hsize : (gathered rules).size = rules.length := by simp [gathered, size]
  refine ext_edges (by rw [hsize, Plan.size_ofRules]) fun i hi => ?_
  rw [hsize] at hi
  have hedges : (gathered rules).edges i =
      (rules[i].body.flatMap (writersOf rules ·.name)).eraseDups.mergeSort := by
    simp [gathered, edges, hi]
  rw [hedges]
  refine (pairwise_lt_mergeSort (FirstOccurrences.nodup_eraseDups _)).eq_of_mem_iff
    (ascends_ofRules rules i) fun j => ?_
  rw [Plan.mem_edges_ofRules, (List.mergeSort_perm _ _).mem_iff, List.mem_eraseDups,
    List.mem_flatMap]
  simp only [writersOf, mem_placesWhere, beq_iff_eq]
  constructor
  · rintro ⟨atom, hatom, writer, hwriter, hname⟩
    exact ⟨rules[i], writer, List.getElem?_eq_getElem hi, hwriter, atom, hatom, hname.symm⟩
  · rintro ⟨reader, writer, hreader, hwriter, atom, hatom, hname⟩
    obtain rfl : rules[i] = reader :=
      Option.some.inj ((List.getElem?_eq_getElem hi).symm.trans hreader)
    exact ⟨atom, hatom, writer, hwriter, hname.symm⟩

/-! ## Scattering edges -/

/-- Adds a source to the lists of its targets, one after another. -/
def scatterRow (lists : List (List Nat)) (row : List Nat × Nat) : List (List Nat) :=
  row.1.foldl (fun lists j => lists.modify j (· ++ [row.2])) lists

/-- The graph turned around by passing over its edges. -/
def scattered (g : Graph) : Graph :=
  ⟨g.successors.zipIdx.foldl scatterRow (List.replicate g.size [])⟩

theorem getElem?_scatterRow
    {targets : List Nat} (h : targets.Nodup) (i : Nat) (lists : List (List Nat)) (j : Nat) :
    (scatterRow lists (targets, i))[j]? =
      lists[j]?.map (· ++ if targets.contains j then [i] else []) := by
  simp only [scatterRow]
  induction targets generalizing lists with
  | nil => simp
  | cons t targets ih =>
      obtain ⟨ht, htargets⟩ := List.nodup_cons.mp h
      rw [List.foldl_cons, ih htargets, List.getElem?_modify]
      by_cases htj : t = j
      · subst htj
        simp [ht, Function.comp_def]
      · simp [htj, Ne.symm htj]

/-- The list at a place holds, after what was there, the sources of the rows
that have the place among their targets, in the order of the rows. -/
theorem getElem?_scatterRows
    {rows : List (List Nat × Nat)} (h : ∀ row ∈ rows, row.1.Nodup)
    (lists : List (List Nat)) (j : Nat) :
    (rows.foldl scatterRow lists)[j]? =
      lists[j]?.map (· ++ rows.filterMap fun (targets, i) =>
        if targets.contains j then some i else none) := by
  induction rows generalizing lists with
  | nil => simp
  | cons row rows ih =>
      obtain ⟨hrow, hrows⟩ := List.forall_mem_cons.mp h
      obtain ⟨targets, i⟩ := row
      rw [List.foldl_cons, ih hrows, getElem?_scatterRow hrow, Option.map_map, List.filterMap_cons]
      split <;> simp_all [Function.comp_def]

/-- Passing over the edges turns a graph around, if no edge is given twice. -/
theorem scattered_eq_reverse {g : Graph} (h : ∀ targets ∈ g.successors, targets.Nodup) :
    g.scattered = g.reverse := by
  have hrows : ∀ row ∈ g.successors.zipIdx, row.1.Nodup :=
    fun row hrow => h row.1 (List.fst_mem_of_mem_zipIdx hrow)
  rw [scattered, reverse]
  congr 1
  refine List.ext_getElem? fun j => ?_
  rw [getElem?_scatterRows hrows, List.getElem?_map]
  by_cases hj : j < g.size
  · rw [List.getElem?_range hj, List.getElem?_replicate_of_lt hj]
    rfl
  · rw [List.getElem?_eq_none (by simpa using hj), List.getElem?_eq_none (by simpa using hj)]
    rfl

theorem Ascends.nodup {g : Graph} (h : g.Ascends) : ∀ targets ∈ g.successors, targets.Nodup := by
  intro targets htargets
  obtain ⟨i, hi⟩ := List.getElem?_of_mem htargets
  have hedges := h i
  rw [edges, List.getD_eq_getElem?_getD, hi, Option.getD_some] at hedges
  exact hedges.imp Nat.ne_of_lt

/-! ## The graph of a list of rules and its reverse -/

/-- `r` has the edges of `g`, each of them turned around, in ascending lists. -/
structure IsTranspose (g r : Graph) : Prop where
  size_eq : r.size = g.size
  ascends : r.Ascends
  mem_iff : ∀ i j, i ∈ r.edges j ↔ g.hasEdge i j = true

theorem isTranspose_reverse {g : Graph} (h : g.InRange) : g.IsTranspose g.reverse where
  size_eq := g.size_reverse
  ascends := g.ascends_reverse
  mem_iff := by
    intro i j
    rw [mem_edges_reverse, hasEdge, List.contains_iff_mem]
    exact ⟨fun hj => hj.2, fun hj => ⟨h.lt_size hj, hj⟩⟩

/-- The graph of `rules` has a node for each rule and ascending lists of the
rules that each depends on; the reversed graph has ascending lists too, and
turning it around again gives the graph back. Gathering the edges atom by atom
and scattering them without sorting come to the same graphs. -/
theorem ofRules_isTransposable (rules : List Rule) :
    let g := ofRules rules
    (g.size = rules.length ∧ g.Ascends ∧ (∀ i j, j ∈ g.edges i ↔ Plan.DependsOn rules i j) ∧
      gathered rules = g) ∧
    (g.IsTranspose g.reverse ∧ g.scattered = g.reverse) ∧
    (g.reverse.reverse = g ∧ g.reverse.scattered = g) := by
  have hrange := inRange_ofRules rules
  have hascends := ascends_ofRules rules
  have hreverse := reverse_reverse hrange hascends
  refine ⟨⟨Plan.size_ofRules rules, hascends, Plan.mem_edges_ofRules rules,
      gathered_eq_ofRules rules⟩,
    ⟨isTranspose_reverse hrange, scattered_eq_reverse hascends.nodup⟩, hreverse, ?_⟩
  rw [scattered_eq_reverse (ascends_reverse _).nodup, hreverse]

end Graph

end LeastModel
