import LeastModel.Proofs.Components

/-!
# The groups of a plan

Rule `i` depends on rule `j` when its body reads the relation that `j` derives.
A plan puts together the rules that depend on one another, in an order in which
every group stands after those it reads from, and marks a group as recursive
when one of its rules depends, over some steps, on itself.
-/

namespace LeastModel

open Relation

namespace Plan

/-- A body atom of rule `i` has the name of the head of rule `j`. -/
def DependsOn (rules : List Rule) (i j : Nat) : Prop :=
  ∃ reader writer, rules[i]? = some reader ∧ rules[j]? = some writer ∧
    ∃ atom ∈ reader.body, atom.name = writer.head.name

/-- What makes a plan an order of evaluation for `rules`. -/
structure IsDependencyOrder (rules : List Rule) (plan : Plan) : Prop where
  /-- The edges of the graph are the dependencies. -/
  edge_iff : ∀ i j, plan.graph.hasEdge i j = true ↔ DependsOn rules i j
  /-- Every rule is in exactly one group. -/
  cover : ∀ i < rules.length,
    ∃! k : Nat, ∃ group, plan.groups[k]? = some group ∧ i ∈ group.indices
  /-- A group has rules, at places that ascend. -/
  ascending : ∀ group ∈ plan.groups, group.indices ≠ [] ∧ group.indices.Pairwise (· < ·)
  /-- The rules of a group are those at its places. -/
  rules_eq : ∀ group ∈ plan.groups, group.rules.map some = group.indices.map (rules[·]?)
  /-- A group holds the places of rules that depend on one another. -/
  same_group : ∀ i < rules.length, ∀ j < rules.length,
    (∃ group ∈ plan.groups, i ∈ group.indices ∧ j ∈ group.indices) ↔
      ReflTransGen (DependsOn rules) i j ∧ ReflTransGen (DependsOn rules) j i
  /-- A rule stands in the same group as, or after, the rules it depends on. -/
  order : ∀ (i j k l : Nat) (reader writer : Group), DependsOn rules i j →
    plan.groups[k]? = some reader → i ∈ reader.indices →
    plan.groups[l]? = some writer → j ∈ writer.indices → l ≤ k
  /-- A group is recursive when one of its rules comes back to itself. -/
  recursive_iff : ∀ group ∈ plan.groups,
    group.recursive = true ↔ ∃ i ∈ group.indices, TransGen (DependsOn rules) i i

/-! ## The dependency graph -/

@[simp] theorem size_ofRules (rules : List Rule) : (Graph.ofRules rules).size = rules.length := by
  simp [Graph.ofRules, Graph.size]

theorem mem_edges_ofRules (rules : List Rule) (i j : Nat) :
    j ∈ (Graph.ofRules rules).edges i ↔ DependsOn rules i j := by
  simp only [Graph.edges, Graph.ofRules, List.getD_eq_getElem?_getD, List.getElem?_map, DependsOn]
  cases hreader : rules[i]? with
  | none => simp
  | some reader =>
      simp only [Option.map_some, Option.getD_some, List.mem_filterMap, Prod.exists,
        List.mem_zipIdx_iff_getElem?]
      constructor
      · rintro ⟨writer, k, hwriter, hif⟩
        split at hif
        · rename_i hreads
          cases hif
          exact ⟨reader, writer, rfl, hwriter, by simpa using hreads⟩
        · cases hif
      · rintro ⟨_, writer, ⟨rfl⟩, hwriter, hreads⟩
        exact ⟨writer, j, hwriter, by simpa using hreads⟩

theorem hasEdge_ofRules (rules : List Rule) (i j : Nat) :
    (Graph.ofRules rules).hasEdge i j = true ↔ DependsOn rules i j := by
  rw [Graph.hasEdge, List.contains_iff_mem, mem_edges_ofRules]

theorem DependsOn.lt_length {rules : List Rule} {i j : Nat} (h : DependsOn rules i j) :
    i < rules.length ∧ j < rules.length := by
  obtain ⟨_, _, hi, hj, -⟩ := h
  exact ⟨(List.getElem?_eq_some_iff.mp hi).1, (List.getElem?_eq_some_iff.mp hj).1⟩

theorem adj_ofRules (rules : List Rule) : (Graph.ofRules rules).Adj = DependsOn rules := by
  funext i j
  refine propext ?_
  rw [Graph.Adj, mem_edges_ofRules, size_ofRules]
  exact ⟨fun h => h.1, fun h => ⟨h, h.lt_length.2⟩⟩

theorem mutual_ofRules (rules : List Rule) (i j : Nat) :
    (Graph.ofRules rules).Mutual i j ↔
      ReflTransGen (DependsOn rules) i j ∧ ReflTransGen (DependsOn rules) j i := by
  rw [Graph.Mutual, Graph.Reaches, Graph.Reaches, adj_ofRules]

/-! ## Groups -/

theorem mem_groups_ofRules {rules : List Rule} {group : Group} :
    group ∈ (ofRules rules).groups ↔
      ∃ component ∈ (Graph.ofRules rules).components,
        groupOf rules (Graph.ofRules rules) component = group :=
  List.mem_map

/-- A group is the class of one of its rules. -/
theorem mem_group
    {rules : List Rule} {group : Group} (h : group ∈ (ofRules rules).groups) :
    ∃ root < rules.length, ∀ i, i ∈ group.indices ↔ (Graph.ofRules rules).Mutual root i := by
  obtain ⟨component, hcomponent, rfl⟩ := mem_groups_ofRules.mp h
  simpa [groupOf] using Graph.mem_component hcomponent

theorem lt_length_of_mem_group
    {rules : List Rule} {group : Group} (h : group ∈ (ofRules rules).groups)
    {i : Nat} (hi : i ∈ group.indices) : i < rules.length := by
  obtain ⟨root, hroot, hmem⟩ := mem_group h
  simpa using Graph.lt_size_of_reaches (by simpa using hroot) ((hmem i).mp hi).1

theorem exists_group {rules : List Rule} {i : Nat} (hi : i < rules.length) :
    ∃ group ∈ (ofRules rules).groups, i ∈ group.indices := by
  obtain ⟨component, hcomponent, hmem⟩ :=
    Graph.exists_component (g := Graph.ofRules rules) (by simpa using hi)
  exact ⟨_, mem_groups_ofRules.mpr ⟨component, hcomponent, rfl⟩, hmem⟩

theorem groups_pairwise (rules : List Rule) :
    (ofRules rules).groups.Pairwise fun earlier later =>
      ∀ i ∈ earlier.indices, ∀ j ∈ later.indices, i ≠ j ∧ ¬DependsOn rules i j := by
  rw [ofRules, List.pairwise_map]
  refine (Graph.components_pairwise _).imp ?_
  intro earlier later h i hi j hj
  rw [← adj_ofRules]
  exact h i hi j hj

theorem group_rules_eq
    {rules : List Rule} {group : Group} (h : group ∈ (ofRules rules).groups) :
    group.rules.map some = group.indices.map (rules[·]?) := by
  have hlt : ∀ i ∈ group.indices, i < rules.length := fun i => lt_length_of_mem_group h
  obtain ⟨component, -, rfl⟩ := mem_groups_ofRules.mp h
  change ∀ i ∈ component, i < rules.length at hlt
  change (component.filterMap (rules[·]?)).map some = component.map (rules[·]?)
  clear h
  induction component with
  | nil => rfl
  | cons i component ih =>
      have hi := List.getElem?_eq_getElem (hlt i List.mem_cons_self)
      rw [List.filterMap_cons_some hi, List.map_cons, List.map_cons,
        ih fun j hj => hlt j (List.mem_cons_of_mem _ hj), hi]

theorem mem_group_rules
    {rules : List Rule} {group : Group} (h : group ∈ (ofRules rules).groups) (rule : Rule) :
    rule ∈ group.rules ↔ ∃ i ∈ group.indices, rules[i]? = some rule := by
  have hsome : some rule ∈ group.rules.map some ↔ rule ∈ group.rules := by simp
  rw [← hsome, group_rules_eq h, List.mem_map]

/-- Every rule of the program is in a group. -/
theorem exists_group_of_mem {rules : List Rule} {rule : Rule} (h : rule ∈ rules) :
    ∃ group ∈ (ofRules rules).groups, rule ∈ group.rules := by
  obtain ⟨i, hi⟩ := List.getElem?_of_mem h
  obtain ⟨group, hgroup, hmem⟩ := exists_group (List.getElem?_eq_some_iff.mp hi).1
  exact ⟨group, hgroup, (mem_group_rules hgroup rule).mpr ⟨i, hmem, hi⟩⟩

/-- The groups hold no other rules than those of the program. -/
theorem mem_of_mem_group
    {rules : List Rule} {group : Group} (h : group ∈ (ofRules rules).groups)
    {rule : Rule} (hrule : rule ∈ group.rules) : rule ∈ rules := by
  obtain ⟨i, -, hi⟩ := (mem_group_rules h rule).mp hrule
  exact List.mem_of_getElem? hi

/-- What holds of the rules of all groups holds of the rules of the program. -/
theorem forall_mem_groups {rules : List Rule} {P : Rule → Prop} :
    (∀ group ∈ (ofRules rules).groups, ∀ rule ∈ group.rules, P rule) ↔ ∀ rule ∈ rules, P rule := by
  constructor
  · intro h rule hrule
    obtain ⟨group, hgroup, hmem⟩ := exists_group_of_mem hrule
    exact h group hgroup rule hmem
  · intro h group hgroup rule hrule
    exact h rule (mem_of_mem_group hgroup hrule)

/-- No rule reads what a later group writes. -/
theorem groups_pairwise_reads (rules : List Rule) :
    (ofRules rules).groups.Pairwise fun earlier later =>
      ∀ reader ∈ earlier.rules, ∀ writer ∈ later.rules,
        ∀ atom ∈ reader.body, atom.name ≠ writer.head.name := by
  refine (groups_pairwise rules).imp_of_mem ?_
  intro earlier later hearlier hlater h reader hreader writer hwriter atom hatom hname
  obtain ⟨i, hi, hireader⟩ := (mem_group_rules hearlier reader).mp hreader
  obtain ⟨j, hj, hjwriter⟩ := (mem_group_rules hlater writer).mp hwriter
  exact (h i hi j hj).2 ⟨reader, writer, hireader, hjwriter, atom, hatom, hname⟩

theorem one_lt_length_of_ne
    {indices : List Nat} {i j : Nat} (hi : i ∈ indices) (hj : j ∈ indices) (hij : i ≠ j) :
    1 < indices.length := by
  match indices, hi, hj with
  | [_], hi, hj =>
      exact absurd ((List.mem_singleton.mp hi).trans (List.mem_singleton.mp hj).symm) hij
  | _ :: _ :: _, _, _ => simp

/-- A group is recursive when one of its rules comes back to itself. -/
theorem group_recursive_iff
    {rules : List Rule} {group : Group} (h : group ∈ (ofRules rules).groups) :
    group.recursive = true ↔ ∃ i ∈ group.indices, TransGen (DependsOn rules) i i := by
  obtain ⟨root, -, hclass⟩ := mem_group h
  obtain ⟨component, hcomponent, rfl⟩ := mem_groups_ofRules.mp h
  change ∀ i, i ∈ component ↔ _ at hclass
  have hrecursive : (groupOf rules (Graph.ofRules rules) component).recursive = true ↔
      1 < component.length ∨ ∃ i ∈ component, DependsOn rules i i := by
    simp [groupOf, hasEdge_ofRules]
  rw [hrecursive]
  constructor
  · rintro (hlength | ⟨i, hi, hself⟩)
    · match component, hlength with
      | i :: j :: rest, _ =>
          -- Two rules of a group are different, so neither path between them is empty.
          have hij : i ≠ j := by
            have hascending := Graph.component_ascending hcomponent
            exact Nat.ne_of_lt ((List.pairwise_cons.mp hascending).1 j List.mem_cons_self)
          have hmutual := ((hclass i).mp List.mem_cons_self).symm.trans
            ((hclass j).mp (List.mem_cons_of_mem _ List.mem_cons_self))
          obtain ⟨hto, hfrom⟩ := (mutual_ofRules rules i j).mp hmutual
          have hpath := (reflTransGen_iff_eq_or_transGen.mp hto).resolve_left hij.symm
          exact ⟨i, List.mem_cons_self, hpath.trans_left hfrom⟩
    · exact ⟨i, hi, .single hself⟩
  · rintro ⟨i, hi, hcycle⟩
    obtain ⟨j, hij, hback⟩ := TransGen.head'_iff.mp hcycle
    by_cases hne : i = j
    · exact Or.inr ⟨i, hi, hne ▸ hij⟩
    · have hmutual := (mutual_ofRules rules i j).mpr ⟨.single hij, hback⟩
      have hj := (hclass j).mpr (((hclass i).mp hi).trans hmutual)
      exact Or.inl (one_lt_length_of_ne hi hj hne)

/-- A group that is not recursive reads nothing that it writes. -/
theorem reads_ne_of_not_recursive
    {rules : List Rule} {group : Group} (h : group ∈ (ofRules rules).groups)
    (hrecursive : group.recursive = false)
    {reader writer : Rule} (hreader : reader ∈ group.rules) (hwriter : writer ∈ group.rules)
    {atom : Atom} (hatom : atom ∈ reader.body) : atom.name ≠ writer.head.name := by
  intro hname
  obtain ⟨i, hi, hireader⟩ := (mem_group_rules h reader).mp hreader
  obtain ⟨j, hj, hjwriter⟩ := (mem_group_rules h writer).mp hwriter
  obtain ⟨root, -, hclass⟩ := mem_group h
  have hij : DependsOn rules i j := ⟨reader, writer, hireader, hjwriter, atom, hatom, hname⟩
  have hback := ((mutual_ofRules rules j i).mp
    (((hclass j).mp hj).symm.trans ((hclass i).mp hi))).1
  have hcycle := (group_recursive_iff h).mpr ⟨i, hi, .head' hij hback⟩
  rw [hrecursive] at hcycle
  exact Bool.false_ne_true hcycle

/-- Two groups that share a rule stand at the same position, and a group never
stands before one that it reads from. -/
theorem position_le
    {rules : List Rule} {i j k l : Nat} {reader writer : Group}
    (hij : i = j ∨ DependsOn rules i j)
    (hk : (ofRules rules).groups[k]? = some reader) (hi : i ∈ reader.indices)
    (hl : (ofRules rules).groups[l]? = some writer) (hj : j ∈ writer.indices) : l ≤ k := by
  by_contra hkl
  obtain ⟨hk', rfl⟩ := List.getElem?_eq_some_iff.mp hk
  obtain ⟨hl', rfl⟩ := List.getElem?_eq_some_iff.mp hl
  have h := List.pairwise_iff_getElem.mp (groups_pairwise rules) k l hk' hl' (by omega) i hi j hj
  exact hij.elim h.1 h.2

/-- The groups of a plan partition the rules into classes of rules that depend
on one another, in an order in which each group follows those it reads from. -/
theorem ofRules_isDependencyOrder (rules : List Rule) :
    IsDependencyOrder rules (ofRules rules) where
  edge_iff := hasEdge_ofRules rules
  cover := by
    intro i hi
    obtain ⟨group, hgroup, hmem⟩ := exists_group hi
    obtain ⟨k, hk⟩ := List.getElem?_of_mem hgroup
    refine ⟨k, ⟨group, hk, hmem⟩, ?_⟩
    rintro l ⟨other, hl, hother⟩
    exact Nat.le_antisymm (position_le (Or.inl rfl) hk hmem hl hother)
      (position_le (Or.inl rfl) hl hother hk hmem)
  ascending := by
    intro group hgroup
    obtain ⟨root, -, hclass⟩ := mem_group hgroup
    refine ⟨List.ne_nil_of_mem ((hclass root).mpr (.refl _ root)), ?_⟩
    obtain ⟨component, hcomponent, rfl⟩ := mem_groups_ofRules.mp hgroup
    exact Graph.component_ascending hcomponent
  rules_eq := fun group hgroup => group_rules_eq hgroup
  same_group := by
    intro i hi j hj
    rw [← mutual_ofRules]
    constructor
    · rintro ⟨group, hgroup, himem, hjmem⟩
      obtain ⟨root, -, hclass⟩ := mem_group hgroup
      exact ((hclass i).mp himem).symm.trans ((hclass j).mp hjmem)
    · intro hmutual
      obtain ⟨group, hgroup, himem⟩ := exists_group hi
      obtain ⟨root, -, hclass⟩ := mem_group hgroup
      exact ⟨group, hgroup, himem, (hclass j).mpr (((hclass i).mp himem).trans hmutual)⟩
  order := by
    intro i j k l reader writer hij hk hi hl hj
    exact position_le (Or.inr hij) hk hi hl hj
  recursive_iff := fun group hgroup => group_recursive_iff hgroup

end Plan

end LeastModel
