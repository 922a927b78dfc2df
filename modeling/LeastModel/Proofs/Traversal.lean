import LeastModel.Plan.Search
import Mathlib.Data.List.Nodup
import Mathlib.Logic.Relation
import Mathlib.Tactic.ByContra
import Mathlib.Tactic.Tauto

/-!
# What a depth-first search finds, and in which order it finishes it

The search runs on an explicit stack. `Explores` is the same search as a
recursion over the successors that are still to be tried; every statement about
the order in which nodes are finished is proved by induction on it.

The two results that the grouping of rules rests on are `Explores.mem_iff`, that
a search finishes exactly what can be reached along nodes that were not visited
before, and `Explores.exists_later`, that whatever a node can reach is finished
no later than some node that lies on a cycle with it.
-/

namespace LeastModel.Graph

open Relation

/-- An edge from `u` to the node `v`. A search passes over numbers that are no
nodes. -/
def Adj (g : Graph) (u v : Nat) : Prop := v ∈ g.edges u ∧ v < g.size

/-- Every edge leads to a node. -/
def InRange (g : Graph) : Prop := ∀ targets ∈ g.successors, ∀ v ∈ targets, v < g.size

instance (g : Graph) : Decidable g.InRange :=
  inferInstanceAs (Decidable (∀ targets ∈ g.successors, ∀ v ∈ targets, v < g.size))

/-- A path from `u` to `v`. -/
def Reaches (g : Graph) (u v : Nat) : Prop := ReflTransGen g.Adj u v

/-- `u` and `v` lie on a cycle, or are the same node. -/
def Mutual (g : Graph) (u v : Nat) : Prop := g.Reaches u v ∧ g.Reaches v u

/-- A path from `u` to `v` that meets no node of `closed`, its ends included. -/
def ReachesOutside (g : Graph) (closed : List Nat) (u v : Nat) : Prop :=
  u ∉ closed ∧ ReflTransGen (fun a b => g.Adj a b ∧ b ∉ closed) u v

/-! ## Paths -/

theorem Mutual.refl (g : Graph) (u : Nat) : g.Mutual u u :=
  ⟨ReflTransGen.refl, ReflTransGen.refl⟩

theorem Mutual.symm {g : Graph} {u v : Nat} (h : g.Mutual u v) : g.Mutual v u :=
  ⟨h.2, h.1⟩

theorem Mutual.trans
    {g : Graph} {u v w : Nat} (huv : g.Mutual u v) (hvw : g.Mutual v w) : g.Mutual u w :=
  ⟨ReflTransGen.trans huv.1 hvw.1, ReflTransGen.trans hvw.2 huv.2⟩

namespace ReachesOutside

variable {g : Graph} {closed : List Nat} {u v w : Nat}

theorem refl (h : u ∉ closed) : g.ReachesOutside closed u u :=
  ⟨h, ReflTransGen.refl⟩

theorem trans
    (huv : g.ReachesOutside closed u v) (hvw : g.ReachesOutside closed v w) :
    g.ReachesOutside closed u w :=
  ⟨huv.1, huv.2.trans hvw.2⟩

theorem head
    (hu : u ∉ closed) (huv : g.Adj u v) (hvw : g.ReachesOutside closed v w) :
    g.ReachesOutside closed u w :=
  ⟨hu, ReflTransGen.head ⟨huv, hvw.1⟩ hvw.2⟩

theorem tail
    (huv : g.ReachesOutside closed u v) (hvw : g.Adj v w) (hw : w ∉ closed) :
    g.ReachesOutside closed u w :=
  ⟨huv.1, huv.2.tail ⟨hvw, hw⟩⟩

theorem notMem (h : g.ReachesOutside closed u v) : v ∉ closed := by
  obtain ⟨hu, hpath⟩ := h
  induction hpath with
  | refl => exact hu
  | tail _ hstep _ => exact hstep.2

theorem reaches (h : g.ReachesOutside closed u v) : g.Reaches u v :=
  h.2.lift id fun _ _ hstep => hstep.1

/-- Closing fewer nodes keeps a path open. -/
theorem of_subset
    {closed' : List Nat} (hsub : ∀ x ∈ closed, x ∈ closed')
    (h : g.ReachesOutside closed' u v) : g.ReachesOutside closed u v :=
  ⟨fun hu => h.1 (hsub u hu),
    h.2.lift id fun _ b hstep => ⟨hstep.1, fun hb => hstep.2 (hsub b hb)⟩⟩

/-- A path that is open either stays open when `w` is closed too, or leads to
`w` first. -/
theorem avoids_or_meets
    (w : Nat) (h : g.ReachesOutside closed u v) :
    g.ReachesOutside (w :: closed) u v ∨ g.ReachesOutside closed u w := by
  obtain ⟨hu, hpath⟩ := h
  induction hpath with
  | refl =>
      by_cases hw : u = w
      · exact Or.inr (hw ▸ refl hu)
      · exact Or.inl (refl (by simp [hw, hu]))
  | @tail a b hpath hstep ih =>
      rcases ih with hopen | hmeets
      · by_cases hb : b = w
        · exact Or.inr (hb ▸ tail ⟨hu, hpath⟩ hstep.1 hstep.2)
        · exact Or.inl (hopen.tail hstep.1 (by simp [hb, hstep.2]))
      · exact Or.inr hmeets

end ReachesOutside

/-! ## The search as a recursion -/

/-- Trying `pending` one after another, with the nodes `visited` already seen,
ends with `visited'` and finishes `out`, in this order. -/
inductive Explores (g : Graph) :
    (pending visited visited' out : List Nat) → Prop
  | done {visited : List Nat} : Explores g [] visited visited []
  | pass {w : Nat} {pending visited visited' out : List Nat}
      (hpass : ¬(w < g.size ∧ w ∉ visited))
      (rest : Explores g pending visited visited' out) :
      Explores g (w :: pending) visited visited' out
  | enter {w : Nat} {pending visited visited₁ visited₂ out₁ out₂ : List Nat}
      (hnode : w < g.size) (hnew : w ∉ visited)
      (below : Explores g (g.edges w) (w :: visited) visited₁ out₁)
      (rest : Explores g pending visited₁ visited₂ out₂) :
      Explores g (w :: pending) visited visited₂ (out₁ ++ w :: out₂)

/-- What is left to do for a whole stack: each frame is explored and its node
finished before the frame under it goes on. -/
inductive Unwinds (g : Graph) :
    (stack : List Frame) → (visited finished : List Nat) → List Nat × List Nat → Prop
  | done {visited finished : List Nat} : Unwinds g [] visited finished (visited, finished)
  | frame {v : Nat} {pending visited visited' out finished : List Nat}
      {stack : List Frame} {result : List Nat × List Nat}
      (top : Explores g pending visited visited' out)
      (below : Unwinds g stack visited' (finished ++ out ++ [v]) result) :
      Unwinds g (⟨v, pending⟩ :: stack) visited finished result

theorem search_unwinds
    (g : Graph) (stack : List Frame) (visited finished : List Nat) :
    g.Unwinds stack visited finished (g.search stack visited finished) := by
  fun_induction search g stack visited finished with
  | case1 => exact .done
  | case2 visited finished v stack ih => exact .frame .done (by simpa using ih)
  | case3 visited finished v w pending stack h ih =>
      -- Both the new frame and the one it was entered from are on the stack.
      cases ih with
      | frame top below =>
          cases below with
          | frame next rest =>
              exact .frame (.enter h.1 h.2 top next) (by simpa using rest)
  | case4 visited finished v w pending stack h ih =>
      cases ih with
      | frame top below => exact .frame (.pass h top) below

theorem searchFrom_explores
    (g : Graph) (root : Nat) (visited : List Nat) :
    ∃ visited' out, g.Explores (g.edges root) (root :: visited) visited' out ∧
      g.searchFrom root visited = (visited', out ++ [root]) := by
  have h := g.search_unwinds [⟨root, g.edges root⟩] (root :: visited) []
  rw [searchFrom]
  generalize g.search _ _ _ = result at h
  cases h with
  | frame top below =>
      cases below
      exact ⟨_, _, top, by simp⟩

/-! ## What a search finishes -/

namespace Explores

variable {g : Graph} {pending visited visited' out : List Nat}

/-- A search has seen what was seen before it and what it has finished. -/
theorem mem_visited
    (h : g.Explores pending visited visited' out) (x : Nat) :
    x ∈ visited' ↔ x ∈ visited ∨ x ∈ out := by
  induction h with
  | done => simp
  | pass _ _ ih => exact ih
  | enter _ _ _ _ ih₁ ih₂ =>
      simp only [ih₂, ih₁, List.mem_cons, List.mem_append]
      tauto

theorem notMem_visited
    (h : g.Explores pending visited visited' out) {x : Nat} (hx : x ∈ out) : x ∉ visited := by
  induction h with
  | done => simp at hx
  | pass _ _ ih => exact ih hx
  | enter _ hnew below _ ih₁ ih₂ =>
      rcases List.mem_append.mp hx with hx | hx
      · exact fun hv => ih₁ hx (List.mem_cons_of_mem _ hv)
      · rcases List.mem_cons.mp hx with rfl | hx
        · exact hnew
        · intro hv
          exact ih₂ hx ((below.mem_visited x).mpr (Or.inl (List.mem_cons_of_mem _ hv)))

/-- No node is finished twice. -/
theorem nodup (h : g.Explores pending visited visited' out) : out.Nodup := by
  induction h with
  | done => exact List.nodup_nil
  | pass _ _ ih => exact ih
  | @enter w _ _ _ _ out₁ out₂ _ _ below rest ih₁ ih₂ =>
      have hw₂ : w ∉ out₂ := fun hw =>
        rest.notMem_visited hw ((below.mem_visited w).mpr (Or.inl List.mem_cons_self))
      have hdisjoint : ∀ x ∈ out₁, x ∉ w :: out₂ := by
        intro x hx hx'
        rcases List.mem_cons.mp hx' with rfl | hx'
        · exact below.notMem_visited hx List.mem_cons_self
        · exact rest.notMem_visited hx' ((below.mem_visited x).mpr (Or.inr hx))
      exact ih₁.append (List.nodup_cons.mpr ⟨hw₂, ih₂⟩) hdisjoint

theorem pending_visited
    (h : g.Explores pending visited visited' out)
    {w : Nat} (hw : w ∈ pending) (hnode : w < g.size) : w ∈ visited' := by
  induction h with
  | done => simp at hw
  | pass hpass rest ih =>
      rcases List.mem_cons.mp hw with rfl | hw
      · refine (rest.mem_visited w).mpr (Or.inl ?_)
        by_contra hnew
        exact hpass ⟨hnode, hnew⟩
      · exact ih hw
  | enter _ _ below rest _ ih₂ =>
      rcases List.mem_cons.mp hw with rfl | hw
      · have hseen := (below.mem_visited w).mpr (Or.inl List.mem_cons_self)
        exact (rest.mem_visited w).mpr (Or.inl hseen)
      · exact ih₂ hw

/-- The successors of what is finished have been seen. -/
theorem successor_visited
    (h : g.Explores pending visited visited' out)
    {x y : Nat} (hx : x ∈ out) (hxy : g.Adj x y) : y ∈ visited' := by
  induction h with
  | done => simp at hx
  | pass _ _ ih => exact ih hx
  | enter _ _ below rest ih₁ ih₂ =>
      rcases List.mem_append.mp hx with hx | hx
      · exact (rest.mem_visited y).mpr (Or.inl (ih₁ hx))
      · rcases List.mem_cons.mp hx with rfl | hx
        · exact (rest.mem_visited y).mpr (Or.inl (below.pending_visited hxy.1 hxy.2))
        · exact ih₂ hx

theorem reached
    (h : g.Explores pending visited visited' out) {x : Nat} (hx : x ∈ out) :
    ∃ w ∈ pending, w < g.size ∧ g.ReachesOutside visited w x := by
  induction h with
  | done => simp at hx
  | pass _ _ ih =>
      obtain ⟨w, hw, hnode, hpath⟩ := ih hx
      exact ⟨w, List.mem_cons_of_mem _ hw, hnode, hpath⟩
  | @enter w _ _ _ _ _ _ hnode hnew below _ ih₁ ih₂ =>
      rcases List.mem_append.mp hx with hx | hx
      · obtain ⟨u, hu, hunode, hpath⟩ := ih₁ hx
        have hopen := hpath.of_subset fun y hy => List.mem_cons_of_mem w hy
        exact ⟨w, List.mem_cons_self, hnode, .head hnew ⟨hu, hunode⟩ hopen⟩
      · rcases List.mem_cons.mp hx with rfl | hx
        · exact ⟨x, List.mem_cons_self, hnode, .refl hnew⟩
        · obtain ⟨u, hu, hunode, hpath⟩ := ih₂ hx
          refine ⟨u, List.mem_cons_of_mem _ hu, hunode, hpath.of_subset ?_⟩
          intro y hy
          exact (below.mem_visited y).mpr (Or.inl (List.mem_cons_of_mem _ hy))

/-- A search finishes exactly what can be reached from a node it tries along
nodes that were not seen before. -/
theorem mem_iff
    (h : g.Explores pending visited visited' out) (x : Nat) :
    x ∈ out ↔ ∃ w ∈ pending, w < g.size ∧ g.ReachesOutside visited w x := by
  constructor
  · exact h.reached
  · rintro ⟨w, hw, hnode, hnew, hpath⟩
    have finished_of_visited : ∀ y, y ∈ visited' → y ∉ visited → y ∈ out := by
      intro y hy hynew
      exact ((h.mem_visited y).mp hy).resolve_left hynew
    induction hpath with
    | refl => exact finished_of_visited w (h.pending_visited hw hnode) hnew
    | tail _ hstep ih =>
        exact finished_of_visited _ (h.successor_visited ih hstep.1) hstep.2

/-- What a node reaches is finished no later than some node on a cycle with it.
The node itself may be finished earlier: the search may have entered its cycle
elsewhere. -/
theorem exists_later
    (h : g.Explores pending visited visited' out)
    {x y : Nat} (hx : x ∈ out) (hxy : g.ReachesOutside visited x y) :
    ∃ z, (y = z ∨ [y, z].Sublist out) ∧ g.Mutual x z := by
  induction h generalizing x y with
  | done => simp at hx
  | pass _ _ ih => exact ih hx hxy
  | @enter w pending visited visited₁ visited₂ out₁ out₂ hnode hnew below rest ih₁ ih₂ =>
      -- The nodes finished up to `w` are those that `w` reaches.
      have tree_iff : ∀ u, u ∈ out₁ ∨ u = w ↔ g.ReachesOutside visited w u := by
        intro u
        have hsingle : g.Explores [w] visited visited₁ (out₁ ++ w :: []) :=
          .enter hnode hnew below .done
        simpa [hnode] using hsingle.mem_iff u
      have tree_before : ∀ u, u ∈ out₁ ∨ u = w → ∀ v ∈ w :: out₂,
          u = v ∨ [u, v].Sublist (out₁ ++ w :: out₂) := by
        intro u hu v hv
        rcases hu with hu | rfl
        · exact Or.inr ((List.singleton_sublist.mpr hu).append (List.singleton_sublist.mpr hv))
        · rcases List.mem_cons.mp hv with rfl | hv
          · exact Or.inl rfl
          · refine Or.inr (List.Sublist.trans ?_ (List.sublist_append_right _ _))
            exact (List.singleton_sublist.mpr hv).cons_cons u
      rcases List.mem_append.mp hx with hx₁ | hx₂
      · have hwx := (tree_iff x).mp (Or.inl hx₁)
        rcases hxy.avoids_or_meets w with hopen | hmeets
        · obtain ⟨z, hz, hxz⟩ := ih₁ hx₁ hopen
          refine ⟨z, hz.imp_right ?_, hxz⟩
          exact fun hsub => hsub.trans (List.sublist_append_left _ _)
        · have hy := (tree_iff y).mpr (hwx.trans hxy)
          exact ⟨w, tree_before y hy w List.mem_cons_self, hmeets.reaches, hwx.reaches⟩
      · rcases List.mem_cons.mp hx₂ with rfl | hx₂'
        · have hy := (tree_iff y).mpr hxy
          exact ⟨x, tree_before y hy x List.mem_cons_self, .refl g x⟩
        · by_cases hy : y ∈ out₁ ∨ y = w
          · exact ⟨x, tree_before y hy x hx₂, .refl g x⟩
          · -- A path that met the nodes finished up to `w` could not leave them again.
            have hopen : g.ReachesOutside visited₁ x y := by
              refine ⟨rest.notMem_visited hx₂', ?_⟩
              obtain ⟨_, hpath⟩ := hxy
              induction hpath with
              | refl => exact ReflTransGen.refl
              | @tail a b hpath hstep ih =>
                  have ha : ¬(a ∈ out₁ ∨ a = w) := by
                    intro ha
                    exact hy ((tree_iff b).mpr
                      (((tree_iff a).mp ha).tail hstep.1 hstep.2))
                  refine (ih ha).tail ⟨hstep.1, ?_⟩
                  rw [below.mem_visited, List.mem_cons]
                  have := hstep.2
                  tauto
            obtain ⟨z, hz, hxz⟩ := ih₂ hx₂' hopen
            refine ⟨z, hz.imp_right ?_, hxz⟩
            intro hsub
            exact (hsub.cons w).trans (List.sublist_append_right _ _)

end Explores

end LeastModel.Graph
