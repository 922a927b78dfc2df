import LeastModel.Plan.Groups
import LeastModel.Proofs.Traversal
import Mathlib.Data.List.Sort

/-!
# Components and their order

The grouping of rules searches the dependency graph twice: once backwards, to
put the nodes in order, and once forwards, from the node that was finished last
on. Each tree of the second pass is one class of mutually reachable nodes, and
no edge leads from a tree to a later one.

The argument for a tree is short once the order is understood. Were a node
reached that is not on a cycle with the root, then by `exists_later` its class
would have a node finished after the root, so the whole class would have been
visited before.
-/

namespace LeastModel

open Relation

namespace Graph

/-! ## The reversed graph -/

@[simp] theorem size_reverse (g : Graph) : g.reverse.size = g.size := by
  simp [reverse, size]

theorem edges_eq_nil {g : Graph} {u : Nat} (hu : g.size ≤ u) : g.edges u = [] := by
  rw [edges, List.getD_eq_getElem?_getD, List.getElem?_eq_none hu, Option.getD_none]

theorem lt_size_of_mem_edges {g : Graph} {u v : Nat} (h : v ∈ g.edges u) : u < g.size := by
  by_contra hu
  rw [edges_eq_nil (Nat.le_of_not_lt hu)] at h
  exact List.not_mem_nil h

theorem InRange.lt_size {g : Graph} (h : g.InRange) {u v : Nat} (hv : v ∈ g.edges u) :
    v < g.size := by
  have hu := lt_size_of_mem_edges hv
  rw [edges, List.getD_eq_getElem?_getD, List.getElem?_eq_getElem hu, Option.getD_some] at hv
  exact h _ (List.getElem_mem hu) v hv

theorem mem_edges_reverse (g : Graph) (u v : Nat) :
    u ∈ g.reverse.edges v ↔ v < g.size ∧ v ∈ g.edges u := by
  by_cases hv : v < g.size
  · simp only [edges, reverse, List.getD_eq_getElem?_getD, List.getElem?_map,
      List.getElem?_range hv, Option.map_some, Option.getD_some, List.mem_filterMap,
      List.mem_zipIdx_iff_getElem?, Prod.exists, hv, true_and]
    constructor
    · rintro ⟨targets, i, hi, hif⟩
      split at hif
      · rename_i hmem
        cases hif
        simpa [hi] using hmem
      · cases hif
    · intro hmem
      cases htargets : g.successors[u]? with
      | none => simp [htargets] at hmem
      | some targets => exact ⟨targets, u, htargets, by simp_all⟩
  · rw [edges_eq_nil (by simpa using hv)]
    simp [hv]

theorem adj_reverse (g : Graph) (u v : Nat) : g.reverse.Adj v u ↔ g.Adj u v := by
  simp only [Adj, mem_edges_reverse, size_reverse]
  constructor
  · exact fun h => ⟨h.1.2, h.1.1⟩
  · exact fun h => ⟨⟨h.2, h.1⟩, lt_size_of_mem_edges h.1⟩

theorem reaches_reverse (g : Graph) (u v : Nat) : g.reverse.Reaches v u ↔ g.Reaches u v := by
  have hflip : g.reverse.Adj = Function.swap g.Adj := by
    funext a b
    exact propext (g.adj_reverse b a)
  rw [Reaches, Reaches, hflip, reflTransGen_swap]

theorem mutual_reverse (g : Graph) (u v : Nat) : g.reverse.Mutual u v ↔ g.Mutual u v := by
  rw [Mutual, Mutual, reaches_reverse, reaches_reverse, and_comm]

/-! ## The order of the first pass -/

theorem forest_explores
    (g : Graph) (roots visited : List Nat) (hroots : ∀ root ∈ roots, root < g.size) :
    ∃ visited', g.Explores roots visited visited' (g.forest roots visited).flatten := by
  induction roots generalizing visited with
  | nil => exact ⟨visited, .done⟩
  | cons root roots ih =>
      have hroot := hroots root List.mem_cons_self
      have hrest : ∀ r ∈ roots, r < g.size := fun r hr => hroots r (List.mem_cons_of_mem _ hr)
      by_cases hseen : root ∈ visited
      · obtain ⟨visited', h⟩ := ih visited hrest
        exact ⟨visited', by simpa [forest, hseen] using Explores.pass (by simp [hseen]) h⟩
      · obtain ⟨visited₁, out, hbelow, hsearch⟩ := g.searchFrom_explores root visited
        obtain ⟨visited₂, h⟩ := ih visited₁ hrest
        exact ⟨visited₂, by simpa [forest, hseen, hsearch] using .enter hroot hseen hbelow h⟩

theorem finishOrder_explores (g : Graph) :
    ∃ visited', g.Explores (List.range g.size) [] visited' g.finishOrder :=
  g.forest_explores (List.range g.size) [] fun _ hroot => List.mem_range.mp hroot

theorem nodup_finishOrder (g : Graph) : g.finishOrder.Nodup := by
  obtain ⟨_, h⟩ := g.finishOrder_explores
  exact h.nodup

theorem mem_finishOrder (g : Graph) (u : Nat) : u ∈ g.finishOrder ↔ u < g.size := by
  obtain ⟨visited', h⟩ := g.finishOrder_explores
  rw [h.mem_iff]
  constructor
  · rintro ⟨w, -, hw, -, hpath⟩
    induction hpath with
    | refl => exact hw
    | tail _ hstep _ => exact hstep.1.2
  · intro hu
    exact ⟨u, List.mem_range.mpr hu, hu, .refl List.not_mem_nil⟩

/-- Whatever `u` reaches is finished no later than some node on a cycle with `u`. -/
theorem finishOrder_exists_later
    {g : Graph} {u v : Nat} (hu : u < g.size) (huv : g.Reaches u v) :
    ∃ w, (v = w ∨ [v, w].Sublist g.finishOrder) ∧ g.Mutual u w := by
  obtain ⟨visited', h⟩ := g.finishOrder_explores
  refine h.exists_later ((g.mem_finishOrder u).mpr hu) ⟨List.not_mem_nil, ?_⟩
  exact huv.lift id fun _ _ hstep => ⟨hstep, List.not_mem_nil⟩

/-! ## The trees of the second pass -/

theorem mem_left_of_pair_sublist
    {left right : List Nat} {u v : Nat}
    (hnodup : (left ++ v :: right).Nodup) (h : [u, v].Sublist (left ++ v :: right)) :
    u ∈ left := by
  induction left with
  | nil =>
      have hv : v ∈ right := by
        rcases List.cons_sublist_cons'.mp h with h | ⟨-, h⟩
        · exact h.subset (by simp)
        · exact List.singleton_sublist.mp h
      exact absurd hv (List.nodup_cons.mp hnodup).1
  | cons w left ih =>
      rcases List.cons_sublist_cons'.mp h with h | ⟨rfl, -⟩
      · exact List.mem_cons_of_mem w (ih (List.nodup_cons.mp hnodup).2 h)
      · exact List.mem_cons_self

/-- The state of the second pass when `roots` are still to be tried. -/
structure Settled (g : Graph) (roots visited : List Nat) : Prop where
  /-- The roots that come earlier in the order have been visited. -/
  order : ∃ tried, g.reverse.finishOrder.reverse = tried ++ roots ∧ ∀ u ∈ tried, u ∈ visited
  /-- Classes have been visited as a whole. -/
  whole : ∀ u ∈ visited, ∀ v, g.Mutual u v → v ∈ visited
  /-- No edge leads out of what has been visited. -/
  adj : ∀ u ∈ visited, ∀ v, g.Adj u v → v ∈ visited

theorem settled_initial (g : Graph) : g.Settled g.reverse.finishOrder.reverse [] where
  order := ⟨[], rfl, by simp⟩
  whole := by simp
  adj := by simp

namespace Settled

variable {g : Graph} {root : Nat} {roots visited : List Nat}

theorem lt_size (h : g.Settled roots visited) (hroot : root ∈ roots) : root < g.size := by
  obtain ⟨tried, horder, -⟩ := h.order
  have hmem : root ∈ g.reverse.finishOrder.reverse := horder ▸ List.mem_append_right tried hroot
  simpa using (g.reverse.mem_finishOrder root).mp (List.mem_reverse.mp hmem)

theorem mem_of_reaches
    (h : g.Settled roots visited) {u v : Nat} (hu : u ∈ visited) (huv : g.Reaches u v) :
    v ∈ visited := by
  induction huv with
  | refl => exact hu
  | tail _ hstep ih => exact h.adj _ ih _ hstep

/-- Moves on to the next root when at least it has been visited. -/
theorem next
    (h : g.Settled (root :: roots) visited) {visited' : List Nat}
    (hsub : ∀ u ∈ visited, u ∈ visited') (hroot : root ∈ visited')
    (hwhole : ∀ u ∈ visited', ∀ v, g.Mutual u v → v ∈ visited')
    (hadj : ∀ u ∈ visited', ∀ v, g.Adj u v → v ∈ visited') :
    g.Settled roots visited' := by
  obtain ⟨tried, horder, htried⟩ := h.order
  refine ⟨⟨tried ++ [root], by simpa using horder, ?_⟩, hwhole, hadj⟩
  intro u hu
  rcases List.mem_append.mp hu with hu | hu
  · exact hsub u (htried u hu)
  · exact List.mem_singleton.mp hu ▸ hroot

/-- From the next root, the paths outside what has been visited lead exactly to
the nodes on a cycle with it. -/
theorem reachesOutside_iff
    (h : g.Settled (root :: roots) visited) (hroot : root ∉ visited) (u : Nat) :
    g.ReachesOutside visited root u ↔ g.Mutual root u := by
  constructor
  · intro hpath
    obtain ⟨tried, horder, htried⟩ := h.order
    have hu : u < g.size := by
      obtain ⟨-, hpath⟩ := hpath
      cases hpath with
      | refl => exact h.lt_size List.mem_cons_self
      | tail _ hstep => exact hstep.1.2
    have hback : g.reverse.Reaches u root := (g.reaches_reverse root u).mpr hpath.reaches
    obtain ⟨w, hlater, hmutual⟩ := finishOrder_exists_later (by simpa using hu) hback
    have huw : g.Mutual u w := (g.mutual_reverse u w).mp hmutual
    rcases hlater with rfl | hlater
    · exact huw.symm
    · -- `w` is finished after the root, so it was tried before it, and `u` with it.
      have hsub : [w, root].Sublist (tried ++ root :: roots) := by
        simpa [horder] using hlater.reverse
      have hnodup : (tried ++ root :: roots).Nodup :=
        horder ▸ List.nodup_reverse.mpr g.reverse.nodup_finishOrder
      have hw := htried w (mem_left_of_pair_sublist hnodup hsub)
      exact absurd (h.whole w hw u huw.symm) hpath.notMem
  · rintro ⟨hto, hfrom⟩
    -- A path through visited nodes could not come back to the root.
    refine ⟨hroot, ?_⟩
    induction hto with
    | refl => exact ReflTransGen.refl
    | tail _ hstep ih =>
        exact (ih (hfrom.head hstep)).tail
          ⟨hstep, fun hv => hroot (h.mem_of_reaches hv hfrom)⟩

end Settled

/-- One search of the second pass finishes the class of its root. -/
theorem Settled.searchFrom
    {g : Graph} {root : Nat} {roots visited visited' tree : List Nat}
    (h : g.Settled (root :: roots) visited) (hroot : root ∉ visited)
    (hsearch : g.searchFrom root visited = (visited', tree)) :
    (∀ u, u ∈ tree ↔ g.Mutual root u) ∧
      (∀ u, u ∈ visited' ↔ u ∈ visited ∨ u ∈ tree) ∧ g.Settled roots visited' := by
  obtain ⟨_, out, hbelow, hresult⟩ := g.searchFrom_explores root visited
  obtain ⟨rfl, rfl⟩ : _ = visited' ∧ out ++ [root] = tree :=
    Prod.mk.inj (hresult.symm.trans hsearch)
  have hsingle : g.Explores [root] visited _ (out ++ root :: []) :=
    .enter (h.lt_size List.mem_cons_self) hroot hbelow .done
  have htree : ∀ u, u ∈ out ++ [root] ↔ g.Mutual root u := by
    intro u
    rw [hsingle.mem_iff, ← h.reachesOutside_iff hroot u]
    simp [h.lt_size List.mem_cons_self]
  refine ⟨htree, hsingle.mem_visited, h.next ?_ ?_ ?_ ?_⟩
  · exact fun u hu => (hsingle.mem_visited u).mpr (Or.inl hu)
  · exact (hsingle.mem_visited root).mpr (Or.inr (by simp))
  · intro u hu v huv
    rw [hsingle.mem_visited] at hu ⊢
    exact hu.imp (h.whole u · v huv) fun hu =>
      (htree v).mpr (((htree u).mp hu).trans huv)
  · intro u hu v huv
    rcases (hsingle.mem_visited u).mp hu with hu | hu
    · exact (hsingle.mem_visited v).mpr (Or.inl (h.adj u hu v huv))
    · exact hsingle.successor_visited hu huv

/-- The trees of the second pass: each is the class of its root, none has been
visited before, no edge leads from one to a later one, and every root is in one. -/
theorem Settled.forest
    {g : Graph} {roots visited : List Nat} (h : g.Settled roots visited) :
    (∀ tree ∈ g.forest roots visited,
      ∃ root ∈ roots, root ∉ visited ∧ ∀ u, u ∈ tree ↔ g.Mutual root u) ∧
    (g.forest roots visited).Pairwise
      (fun earlier later => ∀ u ∈ earlier, ∀ v ∈ later, u ≠ v ∧ ¬g.Adj u v) ∧
    ∀ u ∈ roots, u ∈ visited ∨ ∃ tree ∈ g.forest roots visited, u ∈ tree := by
  induction roots generalizing visited with
  | nil => simp [Graph.forest]
  | cons root roots ih =>
      by_cases hroot : root ∈ visited
      · obtain ⟨hclass, hpair, hcover⟩ := ih (h.next (fun _ hu => hu) hroot h.whole h.adj)
        rw [Graph.forest, if_pos hroot]
        refine ⟨?_, hpair, List.forall_mem_cons.mpr ⟨Or.inl hroot, hcover⟩⟩
        intro tree htree
        obtain ⟨r, hr, hfresh⟩ := hclass tree htree
        exact ⟨r, List.mem_cons_of_mem root hr, hfresh⟩
      · obtain ⟨visited', tree, hsearch⟩ :
            ∃ visited' tree, g.searchFrom root visited = (visited', tree) := ⟨_, _, rfl⟩
        obtain ⟨htree, hvisited, hsettled⟩ := h.searchFrom hroot hsearch
        obtain ⟨hclass, hpair, hcover⟩ := ih hsettled
        rw [Graph.forest, if_neg hroot, hsearch]
        have hfresh : ∀ later ∈ g.forest roots visited', ∀ v ∈ later, v ∉ visited' := by
          intro later hlater v hv hseen
          obtain ⟨r, -, hr, hmem⟩ := hclass later hlater
          exact hr (hsettled.whole v hseen r ((hmem v).mp hv).symm)
        refine ⟨List.forall_mem_cons.mpr ⟨⟨root, List.mem_cons_self, hroot, htree⟩, ?_⟩,
          List.pairwise_cons.mpr ⟨?_, hpair⟩, List.forall_mem_cons.mpr ⟨Or.inr ?_, ?_⟩⟩
        · intro later hlater
          obtain ⟨r, hr, hnew, hmem⟩ := hclass later hlater
          exact ⟨r, List.mem_cons_of_mem root hr,
            fun hseen => hnew ((hvisited r).mpr (Or.inl hseen)), hmem⟩
        · intro later hlater u hu v hv
          have hseen := (hvisited u).mpr (Or.inr hu)
          refine ⟨?_, ?_⟩
          · rintro rfl
            exact hfresh later hlater u hv hseen
          · exact fun huv => hfresh later hlater v hv (hsettled.adj u hseen v huv)
        · exact ⟨tree, List.mem_cons_self, (htree root).mpr (.refl g root)⟩
        · intro u hu
          rcases hcover u hu with hseen | ⟨later, hlater, hmem⟩
          · exact ((hvisited u).mp hseen).imp_right fun hu => ⟨tree, List.mem_cons_self, hu⟩
          · exact Or.inr ⟨later, List.mem_cons_of_mem _ hlater, hmem⟩

/-! ## Components -/

theorem lt_size_of_reaches {g : Graph} {u v : Nat} (hu : u < g.size) (huv : g.Reaches u v) :
    v < g.size := by
  cases huv with
  | refl => exact hu
  | tail _ hstep => exact hstep.2

/-- A component is the class of one of its nodes. -/
theorem mem_component
    {g : Graph} {component : List Nat} (h : component ∈ g.components) :
    ∃ root < g.size, ∀ u, u ∈ component ↔ g.Mutual root u := by
  obtain ⟨tree, htree, rfl⟩ := List.mem_map.mp h
  obtain ⟨root, hroot, -, hmem⟩ := g.settled_initial.forest.1 tree htree
  have hsize := g.settled_initial.lt_size hroot
  refine ⟨root, hsize, fun u => ?_⟩
  simp only [List.mem_filter, List.mem_range, List.contains_iff_mem, hmem u,
    and_iff_right_iff_imp]
  exact fun hu => lt_size_of_reaches hsize hu.1

theorem component_ascending
    {g : Graph} {component : List Nat} (h : component ∈ g.components) :
    component.Pairwise (· < ·) := by
  obtain ⟨tree, -, rfl⟩ := List.mem_map.mp h
  exact List.pairwise_lt_range.filter _

/-- No edge leads from a component to a later one, and no node is in two. -/
theorem components_pairwise (g : Graph) :
    g.components.Pairwise
      fun earlier later => ∀ u ∈ earlier, ∀ v ∈ later, u ≠ v ∧ ¬g.Adj u v := by
  rw [components, List.pairwise_map]
  refine g.settled_initial.forest.2.1.imp ?_
  intro earlier later h u hu v hv
  exact h u (by simpa using (List.mem_filter.mp hu).2) v (by simpa using (List.mem_filter.mp hv).2)

theorem exists_component {g : Graph} {u : Nat} (hu : u < g.size) :
    ∃ component ∈ g.components, u ∈ component := by
  have hroot : u ∈ g.reverse.finishOrder.reverse := by
    simpa [mem_finishOrder] using hu
  rcases g.settled_initial.forest.2.2 u hroot with hseen | ⟨tree, htree, hmem⟩
  · exact absurd hseen List.not_mem_nil
  · exact ⟨_, List.mem_map_of_mem htree, by simpa [hu] using hmem⟩

end Graph

end LeastModel
