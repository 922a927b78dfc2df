import LeastModel.Database.Instances
import LeastModel.Proofs.NaturalJoin
import Mathlib.Data.List.Sort

/-!
# Atoms under assignments

An assignment of values to names turns an atom into a tuple: a constant stands
for itself, every other term for the value of its name. A tuple that an atom
stands for can be read backwards, each name taking the value at its first
place; `eq_ground_valuation_iff` says that this finds an assignment whenever
there is one. First places ascend in the order of the names, which is why a
projection onto them keeps that order.
-/

namespace LeastModel

/-- The value of a term under an assignment. -/
def Term.under (σ : Bytes → Bytes) (t : Term) : Bytes :=
  if t.isConstant then t.value else σ t.value

namespace Atom

/-- The tuple that an atom stands for under an assignment. -/
def ground (a : Atom) (σ : Bytes → Bytes) : Tuple := a.terms.map (·.under σ)

/-- The first place of the variable `name`; beyond the last place if there is none. -/
def firstPlace (a : Atom) (name : Bytes) : Nat :=
  a.terms.findIdx fun t => !t.isConstant && t.value == name

/-- The values that a tuple has at the first places of variables. -/
def valuation (a : Atom) (t : Tuple) (name : Bytes) : Bytes := t.value (a.firstPlace name)

/-- Every term is an identifier or a constant. -/
def Plain (a : Atom) : Prop :=
  ∀ t ∈ a.terms, t.kind = .identifier ∨ t.kind = .constant

@[simp] theorem length_ground (a : Atom) (σ : Bytes → Bytes) : (a.ground σ).length = a.arity := by
  simp [ground, arity]

theorem value_ground
    {a : Atom} {i : Nat} {t : Term} (h : a.terms[i]? = some t) (σ : Bytes → Bytes) :
    (a.ground σ).value i = t.under σ := by
  apply Tuple.value_eq_of_getElem?
  rw [ground, List.getElem?_map, h, Option.map_some]

/-! ## Names and their places -/

theorem mem_openNames (a : Atom) (name : Bytes) :
    name ∈ a.openNames ↔ ∃ t ∈ a.terms, t.isConstant = false ∧ t.value = name := by
  simp [openNames, and_assoc]

theorem mem_ground
    {a : Atom} {name : Bytes} (h : name ∈ a.openNames) (σ : Bytes → Bytes) :
    σ name ∈ a.ground σ := by
  obtain ⟨t, ht, hopen, rfl⟩ := (a.mem_openNames name).mp h
  exact List.mem_map.mpr ⟨t, ht, by simp [Term.under, hopen]⟩

/-- Where there are only identifiers and constants, the names are the identifiers. -/
theorem Plain.openNames_eq {a : Atom} (h : a.Plain) : a.openNames = a.identifiers := by
  have hkinds : a.terms.filter (!·.isConstant) = a.terms.filter (·.isIdentifier) := by
    apply List.filter_congr
    intro t ht
    rcases h t ht with hkind | hkind
    · simp [Term.isConstant, Term.isIdentifier, hkind, TermKind.identifier, TermKind.constant]
    · simp [Term.isConstant, Term.isIdentifier, hkind, TermKind.identifier, TermKind.constant]
  rw [openNames, identifiers, hkinds]

theorem nodup_openNames (a : Atom) : a.openNames.Nodup :=
  FirstOccurrences.nodup_eraseDups _

theorem mem_placesOf (a : Atom) (name : Bytes) (i : Int) :
    i ∈ a.placesOf name ↔
      ∃ k : Nat, i = k ∧ ∃ t, a.terms[k]? = some t ∧ t.isConstant = false ∧ t.value = name := by
  simp only [placesOf, List.mem_filterMap, Prod.exists, List.mem_zipIdx_iff_getElem?]
  constructor
  · rintro ⟨t, k, hk, hif⟩
    obtain ⟨hname, ⟨rfl⟩⟩ := Option.ite_none_right_eq_some.mp hif
    exact ⟨k, rfl, t, hk, by simpa using hname⟩
  · rintro ⟨k, rfl, t, hk, hname⟩
    exact ⟨t, k, hk, by simp [hname]⟩

theorem mem_constants (a : Atom) (i : Int) (v : Bytes) :
    (i, v) ∈ a.constants ↔
      ∃ k : Nat, i = k ∧ ∃ t, a.terms[k]? = some t ∧ t.isConstant = true ∧ t.value = v := by
  simp only [constants, List.mem_filterMap, Prod.exists, List.mem_zipIdx_iff_getElem?]
  constructor
  · rintro ⟨t, k, hk, hif⟩
    obtain ⟨hconstant, ⟨rfl⟩⟩ := Option.ite_none_right_eq_some.mp hif
    exact ⟨k, rfl, t, hk, hconstant, rfl⟩
  · rintro ⟨k, rfl, t, hk, hconstant, rfl⟩
    exact ⟨t, k, hk, by simp [hconstant]⟩

/-- Each place has at most one wanted constant. -/
theorem constants_pairwise (a : Atom) : a.constants.Pairwise fun p q => p.1 ≠ q.1 := by
  have hascending : a.terms.zipIdx.Pairwise fun p q => p.2 < q.2 := by
    rw [← List.pairwise_map (f := Prod.snd) (R := (· < ·)), List.zipIdx_map_snd]
    exact List.pairwise_lt_range'
  refine hascending.filterMap _ ?_
  rintro ⟨t, i⟩ ⟨u, j⟩ hij p hp q hq
  obtain ⟨-, ⟨rfl⟩⟩ := Option.ite_none_right_eq_some.mp hp
  obtain ⟨-, ⟨rfl⟩⟩ := Option.ite_none_right_eq_some.mp hq
  exact fun h => Nat.ne_of_lt hij (Int.ofNat_inj.mp h)

theorem firstPlace_spec {a : Atom} {name : Bytes} (h : name ∈ a.openNames) :
    ∃ t, a.terms[a.firstPlace name]? = some t ∧ t.isConstant = false ∧ t.value = name := by
  obtain ⟨t, ht, hname⟩ := (a.mem_openNames name).mp h
  have hlt : a.firstPlace name < a.terms.length :=
    List.findIdx_lt_length_of_exists ⟨t, ht, by simp [hname]⟩
  have hfound : (!a.terms[a.firstPlace name].isConstant &&
      a.terms[a.firstPlace name].value == name) = true := List.findIdx_getElem (w := hlt)
  exact ⟨_, List.getElem?_eq_getElem hlt, by simpa using hfound⟩

theorem firstPlace_lt {a : Atom} {name : Bytes} (h : name ∈ a.openNames) :
    a.firstPlace name < a.arity := by
  obtain ⟨t, ht, -⟩ := firstPlace_spec h
  exact (List.getElem?_eq_some_iff.mp ht).1

theorem head_filterMap_zipIdx
    (p : Term → Bool) (terms : List Term) (k : Nat) (h : ∃ t ∈ terms, p t = true) :
    ((terms.zipIdx k).filterMap fun (t, i) => if p t then some (i : Int) else none).take 1 =
      [((k + terms.findIdx p : Nat) : Int)] := by
  induction terms generalizing k with
  | nil => simp at h
  | cons t terms ih =>
      rw [List.zipIdx_cons, List.findIdx_cons]
      by_cases ht : p t = true
      · simp [ht]
      · have hrest : ∃ u ∈ terms, p u = true := by simpa [ht] using h
        have hfirst := ih (k + 1) hrest
        simp only [ht, Bool.false_eq_true, if_false, cond_false,
          List.filterMap_cons_none] at hfirst ⊢
        rw [hfirst]
        congr 2
        omega

/-- The place that is kept of a variable is its first. -/
theorem take_placesOf {a : Atom} {name : Bytes} (h : name ∈ a.openNames) :
    (a.placesOf name).take 1 = [((a.firstPlace name : Nat) : Int)] := by
  obtain ⟨t, ht, hname⟩ := (a.mem_openNames name).mp h
  have hfirst := head_filterMap_zipIdx (fun t => !t.isConstant && t.value == name)
    a.terms 0 ⟨t, ht, by simp [hname]⟩
  simpa [placesOf, firstPlace] using hfirst

/-- First places ascend in the order of the names. -/
theorem firstPlaces_ascending (a : Atom) :
    (a.openNames.map a.firstPlace).Pairwise (· < ·) := by
  obtain ⟨relation, terms⟩ := a
  induction terms using List.reverseRecOn with
  | nil => exact List.Pairwise.nil
  | append_singleton terms t ih =>
      -- One more term leaves the earlier first places as they are.
      have hkeep : ∀ name ∈ openNames ⟨relation, terms⟩,
          firstPlace ⟨relation, terms ++ [t]⟩ name = firstPlace ⟨relation, terms⟩ name := by
        intro name hname
        exact (List.findIdx_append ..).trans (if_pos (firstPlace_lt hname))
      have hold : ((openNames ⟨relation, terms⟩).map
          (firstPlace ⟨relation, terms ++ [t]⟩)).Pairwise (· < ·) := by
        rwa [List.map_congr_left hkeep]
      by_cases hconstant : t.isConstant = true
      · have hnames : openNames ⟨relation, terms ++ [t]⟩ = openNames ⟨relation, terms⟩ := by
          simp [openNames, hconstant]
        rwa [hnames]
      · have hnames : openNames ⟨relation, terms ++ [t]⟩ =
            if t.value ∈ (terms.filter (!·.isConstant)).map (·.value)
            then openNames ⟨relation, terms⟩ else openNames ⟨relation, terms⟩ ++ [t.value] := by
          simp only [openNames, List.filter_append, List.map_append]
          rw [← FirstOccurrences.eraseDups_concat]
          simp [hconstant]
        rw [hnames]
        split
        · exact hold
        · rename_i hnew
          rw [List.map_append, List.pairwise_append]
          refine ⟨hold, List.pairwise_singleton _ _, ?_⟩
          intro i hi j hj
          obtain ⟨name, hname, rfl⟩ := List.mem_map.mp hi
          rw [hkeep name hname]
          have hlast : terms.length ≤ j := by
            rw [List.mem_singleton.mp hj, firstPlace, List.findIdx_append]
            split
            · rename_i hfound
              obtain ⟨u, hu, hvalue⟩ := List.findIdx_lt_length.mp hfound
              exact absurd (by simpa using ⟨u, ⟨hu, by simp_all⟩, by simp_all⟩) hnew
            · exact Nat.le_add_left _ _
          exact Nat.lt_of_lt_of_le (firstPlace_lt hname) hlast

/-! ## Reading a tuple backwards -/

theorem valuation_ground
    {a : Atom} {name : Bytes} (h : name ∈ a.openNames) (σ : Bytes → Bytes) :
    a.valuation (a.ground σ) name = σ name := by
  obtain ⟨t, ht, hopen, rfl⟩ := firstPlace_spec h
  rw [valuation, value_ground ht, Term.under, if_neg (by simp [hopen])]

/-- An atom looks at an assignment only through its names. -/
theorem ground_congr
    {a : Atom} {σ τ : Bytes → Bytes} (h : ∀ name ∈ a.openNames, σ name = τ name) :
    a.ground σ = a.ground τ := by
  apply List.map_congr_left
  intro t ht
  by_cases hconstant : t.isConstant = true
  · simp [Term.under, hconstant]
  · have hname := h t.value ((a.mem_openNames _).mpr ⟨t, ht, by simpa using hconstant, rfl⟩)
    simp [Term.under, hconstant, hname]

theorem eq_ground_valuation_iff (a : Atom) (t : Tuple) :
    t = a.ground (a.valuation t) ↔ ∃ σ, t = a.ground σ := by
  constructor
  · exact fun h => ⟨_, h⟩
  · rintro ⟨σ, rfl⟩
    exact ground_congr fun name hname => (valuation_ground hname σ).symm

/-- A tuple is what an atom stands for when it has the constants at their places
and equal values at the places of each name. -/
theorem eq_ground_iff
    {a : Atom} {t : Tuple} (hlength : t.length = a.arity) :
    t = a.ground (a.valuation t) ↔
      (∀ p ∈ a.constants, t.value p.1.toNat = p.2) ∧
        ∀ name ∈ a.openNames, ∀ i ∈ a.placesOf name, ∀ j ∈ a.placesOf name,
          t.value i.toNat = t.value j.toNat := by
  constructor
  · intro h
    have hvalue : ∀ k u, a.terms[k]? = some u → t.value k = u.under (a.valuation t) := by
      intro k u hu
      rw [h, value_ground hu, ← h]
    constructor
    · rintro ⟨i, v⟩ hp
      obtain ⟨k, rfl, u, hu, hconstant, rfl⟩ := (a.mem_constants i v).mp hp
      simpa [Term.under, hconstant] using hvalue k u hu
    · intro name _ i hi j hj
      obtain ⟨k, rfl, u, hu, hopen, rfl⟩ := (a.mem_placesOf name i).mp hi
      obtain ⟨l, rfl, w, hw, hopen', hname⟩ := (a.mem_placesOf _ j).mp hj
      have hk := hvalue k u hu
      have hl := hvalue l w hw
      simp only [Term.under, hopen, hopen', hname] at hk hl
      exact hk.trans hl.symm
  · rintro ⟨hconstants, hequal⟩
    apply Tuple.ext_value (by simpa using hlength)
    intro k hk
    have hlt : k < a.terms.length := Nat.lt_of_lt_of_eq hk hlength
    have hu := List.getElem?_eq_getElem hlt
    rw [value_ground hu, Term.under]
    split
    · rename_i hconstant
      exact hconstants _ ((a.mem_constants k _).mpr ⟨k, rfl, _, hu, hconstant, rfl⟩)
    · rename_i hopen
      have hopen : a.terms[k].isConstant = false := by simpa using hopen
      have hname := (a.mem_openNames a.terms[k].value).mpr ⟨_, List.getElem_mem _, hopen, rfl⟩
      obtain ⟨u, hfirst, hfirstOpen, hfirstName⟩ := firstPlace_spec hname
      exact hequal _ hname k ((a.mem_placesOf _ _).mpr ⟨k, rfl, _, hu, hopen, rfl⟩)
        (a.firstPlace a.terms[k].value)
        ((a.mem_placesOf _ _).mpr ⟨_, rfl, u, hfirst, hfirstOpen, hfirstName⟩)

end Atom

end LeastModel
