import LeastModel.Proofs.AtomPlaces

/-!
# The instances of an atom

Selecting constants, equating repeated names and keeping first places leaves
exactly the tuples that the atom stands for, each read backwards:
`tuples_instances` gives them as a list, in the order of the relation, and
`holds_instances` says what this means for assignments.
-/

namespace LeastModel

/-- A list of steps that all succeed gives the list of their values. -/
theorem mapM_eq_ok
    {ε α β : Type} {f : α → Except ε β} {g : α → β} {xs : List α}
    (h : ∀ x ∈ xs, f x = .ok (g x)) : xs.mapM f = .ok (xs.map g) := by
  induction xs with
  | nil => rfl
  | cons x xs ih =>
      rw [List.mapM_cons, h x List.mem_cons_self,
        ih fun y hy => h y (List.mem_cons_of_mem x hy)]
      rfl

namespace Relation

variable {digest : Digest}

theorem place_natCast {r : Relation digest} {k : Nat} (hk : k < r.arity) :
    r.place (k : Int) = .ok k := by
  rw [place, if_pos (by omega)]
  rfl

theorem lastPerPlace_eq_self
    {wanted : List (Int × Bytes)} (h : wanted.Pairwise fun p q => p.1 ≠ q.1) :
    lastPerPlace wanted = wanted := by
  induction wanted with
  | nil => rfl
  | cons p wanted ih =>
      obtain ⟨hp, hrest⟩ := List.pairwise_cons.mp h
      have hnone : (wanted.any (·.1 == p.1)) = false := by
        simpa using fun i v hq => (hp (i, v) hq).symm
      rw [lastPerPlace, hnone, ih hrest]
      rfl

/-! ## The steps of an instance -/

/-- Whether a tuple has the constants of an atom at their places. -/
def hasConstants (atom : Atom) (t : Tuple) : Bool :=
  decide (∀ p ∈ atom.constants, t.value p.1.toNat = p.2)

/-- Whether a tuple has equal values at all places of a name. -/
def agreesAt (atom : Atom) (t : Tuple) (name : Bytes) : Bool :=
  decide (∀ i ∈ atom.placesOf name, ∀ j ∈ atom.placesOf name, t.value i.toNat = t.value j.toNat)

theorem select_constants
    {r : Relation digest} {atom : Atom} (harity : atom.arity = r.arity) :
    r.select atom.constants = .ok (r.filter (hasConstants atom)) := by
  rw [select]
  refine bind_eq_ok_iff.mpr ⟨atom.constants.map fun p => (p.1.toNat, p.2), ?_, ?_⟩
  · rw [lastPerPlace_eq_self atom.constants_pairwise]
    apply mapM_eq_ok
    rintro ⟨i, v⟩ hp
    obtain ⟨k, rfl, t, ht, -⟩ := (atom.mem_constants i v).mp hp
    have hk : k < atom.arity := (List.getElem?_eq_some_iff.mp ht).1
    simp only [place_natCast (harity ▸ hk), Int.toNat_natCast]
    rfl
  · refine congrArg Except.ok (congrArg r.filter ?_)
    funext t
    rw [Bool.eq_iff_iff]
    simp [hasConstants]

theorem mapM_placesOf
    {r : Relation digest} {atom : Atom} (harity : atom.arity = r.arity) (name : Bytes) :
    (atom.placesOf name).mapM r.place = .ok ((atom.placesOf name).map Int.toNat) := by
  apply mapM_eq_ok
  intro i hi
  obtain ⟨k, rfl, t, ht, -⟩ := (atom.mem_placesOf name i).mp hi
  have hk : k < atom.arity := (List.getElem?_eq_some_iff.mp ht).1
  rw [place_natCast (harity ▸ hk), Int.toNat_natCast]

theorem selectEqual_placesOf
    {r : Relation digest} {atom : Atom} (harity : atom.arity = r.arity) (name : Bytes) :
    r.selectEqual (atom.placesOf name) = .ok (r.filter (agreesAt atom · name)) := by
  rw [selectEqual, mapM_placesOf harity]
  refine congrArg Except.ok (congrArg r.filter ?_)
  funext t
  rw [Bool.eq_iff_iff, agreesAt, decide_eq_true_iff]
  cases atom.placesOf name with
  | nil => simp
  | cons first others =>
      simp only [List.map_cons, List.all_map, List.all_eq_true, Function.comp, beq_iff_eq]
      constructor
      · intro h i hi j hj
        have hfirst : ∀ k ∈ first :: others, t.value k.toNat = t.value first.toNat :=
          List.forall_mem_cons.mpr ⟨rfl, h⟩
        exact (hfirst i hi).trans (hfirst j hj).symm
      · intro h i hi
        exact h i (List.mem_cons_of_mem first hi) first List.mem_cons_self

/-- Equating names filters by all of them, name by name. -/
theorem equate_spec
    {atom : Atom} {r : Relation digest} (hr : r.WellFormed) (harity : atom.arity = r.arity)
    (names : List Bytes) :
    ∃ s, equate atom names r = .ok s ∧ s.WellFormed ∧ s.arity = r.arity ∧
      s.tuples = r.tuples.filter fun t => names.all (agreesAt atom t) := by
  induction names generalizing r with
  | nil => exact ⟨r, rfl, hr, rfl, by simp⟩
  | cons name names ih =>
      have hstep : ∃ s,
          (if (atom.placesOf name).length > 1 then r.selectEqual (atom.placesOf name)
            else .ok r) = .ok s ∧ s.WellFormed ∧ s.arity = r.arity ∧
          s.tuples = r.tuples.filter (agreesAt atom · name) := by
        split
        · exact ⟨_, selectEqual_placesOf harity name, hr.filter _, rfl, tuples_filter hr _⟩
        · rename_i hlength
          -- A name with at most one place agrees with itself.
          have hagrees : ∀ t, agreesAt atom t name = true := by
            intro t
            rw [agreesAt, decide_eq_true_iff]
            intro i hi j hj
            match hplaces : atom.placesOf name with
            | [] => simp [hplaces] at hi
            | [k] =>
                rw [hplaces, List.mem_singleton] at hi hj
                rw [hi, hj]
            | _ :: _ :: _ => simp [hplaces] at hlength
          exact ⟨r, rfl, hr, rfl, (List.filter_eq_self.mpr fun t _ => hagrees t).symm⟩
      obtain ⟨s, hs, hwell, hsarity, htuples⟩ := hstep
      obtain ⟨u, hu, huwell, huarity, hutuples⟩ := ih hwell (harity.trans hsarity.symm)
      refine ⟨u, ?_, huwell, huarity.trans hsarity, ?_⟩
      · rw [equate_cons, hs]
        exact hu
      · rw [hutuples, htuples, List.filter_filter]
        apply List.filter_congr
        intro t _
        rw [List.all_cons, Bool.and_comm]

/-- The places that an atom keeps are the first places of its names, in order. -/
theorem project_firstPlaces
    {r : Relation digest} {atom : Atom} (harity : atom.arity = r.arity) :
    r.project (atom.openNames.flatMap fun name => (atom.placesOf name).take 1) =
      .ok (r.columns (atom.openNames.map atom.firstPlace)) := by
  have hfirst : (atom.openNames.flatMap fun name => (atom.placesOf name).take 1) =
      atom.openNames.map fun name => ((atom.firstPlace name : Nat) : Int) := by
    rw [List.flatMap_congr fun name hname => Atom.take_placesOf hname]
    exact List.map_eq_flatMap.symm
  have hplaces : (atom.openNames.map fun name => ((atom.firstPlace name : Nat) : Int)).mapM
      r.place = .ok (atom.openNames.map atom.firstPlace) := by
    rw [mapM_eq_ok (g := Int.toNat)]
    · simp [Function.comp_def]
    · intro i hi
      obtain ⟨name, hname, rfl⟩ := List.mem_map.mp hi
      exact place_natCast (harity ▸ Atom.firstPlace_lt hname)
  have hascending : (List.range r.arity).filter (atom.openNames.map atom.firstPlace).contains =
      atom.openNames.map atom.firstPlace := by
    refine List.Pairwise.eq_of_mem_iff (List.pairwise_lt_range.filter _)
      atom.firstPlaces_ascending ?_
    intro i
    rw [List.mem_filter, List.mem_range, List.contains_iff_mem, and_iff_right_iff_imp]
    intro hi
    obtain ⟨name, hname, rfl⟩ := List.mem_map.mp hi
    exact harity ▸ Atom.firstPlace_lt hname
  rw [project, hfirst, hplaces]
  exact congrArg (fun places => Except.ok (r.columns places)) hascending

/-! ## Instances -/

/-- The instances of an atom: the tuples that it stands for, each read backwards,
in the order of the relation. -/
theorem instances_spec
    {r : Relation digest} {atom : Atom} (hr : r.WellFormed) (harity : atom.arity = r.arity) :
    ∃ s, r.instances atom = .ok s ∧ s.name = atom.name ∧ s.schema = atom.openNames ∧
      s.tuples = (r.tuples.filter fun t => t = atom.ground (atom.valuation t)).map
        fun t => atom.openNames.map (atom.valuation t) := by
  obtain ⟨matched, hmatched, hwell, hmarity, hmtuples⟩ :=
    equate_spec (hr.filter (hasConstants atom)) harity atom.openNames
  have hmarity : matched.arity = r.arity := hmarity
  have hrename : (matched.columns (atom.openNames.map atom.firstPlace)).rename atom.openNames =
      .ok { matched.columns (atom.openNames.map atom.firstPlace) with schema := atom.openNames } :=
    rename_eq_ok_iff.mpr ⟨by simp [columns, arity], rfl⟩
  refine ⟨{ matched.columns (atom.openNames.map atom.firstPlace) with
    name := atom.name, schema := atom.openNames }, ?_, rfl, rfl, ?_⟩
  · rw [instances, if_pos harity]
    simp only [select_constants harity, hmatched, project_firstPlaces (harity.trans hmarity.symm),
      hrename, bind, Except.bind]
    rfl
  · have hfilter : matched.tuples =
        r.tuples.filter fun t => t = atom.ground (atom.valuation t) := by
      rw [hmtuples, tuples_filter hr, List.filter_filter]
      apply List.filter_congr
      intro t ht
      rw [Bool.eq_iff_iff]
      simp only [Bool.and_eq_true, List.all_eq_true, hasConstants, agreesAt, decide_eq_true_iff,
        Atom.eq_ground_iff ((hr.arity t ht).trans harity.symm)]
      exact and_comm
    have hcolumns : ∀ t : Tuple, t.columns (atom.openNames.map atom.firstPlace) =
        atom.openNames.map (atom.valuation t) := by
      intro t
      simp [Tuple.columns, Atom.valuation]
    change (TupleSet.ofList (matched.tuples.map
      (·.columns (atom.openNames.map atom.firstPlace))) : TupleSet digest).toList = _
    rw [hfilter]
    simp only [hcolumns]
    -- A matching tuple is determined by what is read off it, so none coincide.
    apply TupleSet.toList_ofList_of_nodup
    refine List.Nodup.map_on ?_ (hr.set.nodup.filter _)
    intro t ht u hu heq
    rw [of_decide_eq_true (List.mem_filter.mp ht).2, of_decide_eq_true (List.mem_filter.mp hu).2]
    exact Atom.ground_congr fun name hname => List.map_inj_left.mp heq name hname

theorem arity_of_instances
    {r s : Relation digest} {atom : Atom} (h : r.instances atom = .ok s) :
    atom.arity = r.arity := by
  by_contra harity
  rw [instances, if_neg harity] at h
  cases h

theorem schema_instances
    {r s : Relation digest} {atom : Atom} (hr : r.WellFormed) (h : r.instances atom = .ok s) :
    s.schema = atom.openNames := by
  obtain ⟨s', hs', -, hschema, -⟩ := instances_spec hr (arity_of_instances h)
  cases h.symm.trans hs'
  exact hschema

theorem tuples_instances
    {r s : Relation digest} {atom : Atom} (hr : r.WellFormed) (h : r.instances atom = .ok s) :
    s.tuples = (r.tuples.filter fun t => t = atom.ground (atom.valuation t)).map
      fun t => atom.openNames.map (atom.valuation t) := by
  obtain ⟨s', hs', -, -, htuples⟩ := instances_spec hr (arity_of_instances h)
  cases h.symm.trans hs'
  exact htuples

/-- The instances of an atom hold where the relation has what the atom stands for. -/
theorem holds_instances
    {r s : Relation digest} {atom : Atom} (hr : r.WellFormed) (h : r.instances atom = .ok s)
    (σ : Bytes → Bytes) : s.Holds σ ↔ atom.ground σ ∈ r.tuples := by
  rw [Holds, schema_instances hr h, tuples_instances hr h, List.mem_map]
  constructor
  · rintro ⟨t, ht, heq⟩
    obtain ⟨hmem, hground⟩ := List.mem_filter.mp ht
    have hσ : atom.ground σ = t := by
      rw [of_decide_eq_true hground]
      exact Atom.ground_congr fun name hname => (List.map_inj_left.mp heq name hname).symm
    rwa [hσ]
  · intro hmem
    refine ⟨atom.ground σ, List.mem_filter.mpr ⟨hmem, ?_⟩, ?_⟩
    · exact decide_eq_true ((atom.eq_ground_valuation_iff _).mpr ⟨σ, rfl⟩)
    · exact List.map_congr_left fun name hname => Atom.valuation_ground hname σ

end Relation

end LeastModel
