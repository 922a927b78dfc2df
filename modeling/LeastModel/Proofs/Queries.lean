import LeastModel.Proofs.Consequence
import LeastModel.Proofs.DatabaseRequests

/-!
# What a query answers

A tuple matches an atom when it has the constants of the atom at their places and
equal values wherever the atom has the same identifier. A tuple that matches can be
read backwards and is what the atom stands for then (`Atom.matches_iff`), so that
selecting, equating, projecting and renaming one after another comes to matching
alone, and two tuples that match are never read off as one.

## Main statement

`Database.ofRequests_answersQuery`: after any requests, a query fails when its
relation is not declared or has another number of attributes, and is otherwise
answered by the tuples that match, in the order in which they are stored.
-/

namespace LeastModel

namespace Atom

/-- The tuple has the constants of the atom, and one value for each identifier. -/
def Matches (a : Atom) (t : Tuple) : Prop :=
  (∀ p ∈ a.terms.zip t, p.1.kind = .constant → p.2 = p.1.value) ∧
    ∀ p ∈ a.terms.zip t, ∀ q ∈ a.terms.zip t, p.1.kind = .identifier → q.1 = p.1 → q.2 = p.2

instance (a : Atom) (t : Tuple) : Decidable (a.Matches t) :=
  inferInstanceAs (Decidable (_ ∧ _))

/-- The values of a tuple at the first places of the identifiers. -/
def readOff (a : Atom) (t : Tuple) : Tuple := a.identifiers.map (a.valuation t)

theorem mem_zip_terms {a : Atom} {t : Tuple} (h : t.length = a.arity) {u : Term} {v : Bytes} :
    (u, v) ∈ a.terms.zip t ↔ ∃ k, a.terms[k]? = some u ∧ t.value k = v := by
  rw [List.mem_iff_getElem?]
  refine exists_congr fun k => ?_
  rw [List.getElem?_zip_eq_some]
  refine and_congr_right fun hu => ?_
  have hk : k < t.length := Nat.lt_of_lt_of_eq (List.getElem?_eq_some_iff.mp hu).1 h.symm
  have hvalue := List.getElem?_eq_getElem hk
  rw [hvalue, Tuple.value_eq_of_getElem? hvalue, Option.some_inj]

theorem Plain.eq_identifier {a : Atom} (h : a.Plain) {u : Term} (hu : u ∈ a.terms)
    (hopen : u.isConstant = false) : u = .identifier u.value := by
  obtain ⟨kind, value⟩ := u
  rcases h _ hu with rfl | rfl
  · rfl
  · cases hopen

/-- The tuples that match are those that the atom stands for. -/
theorem matches_iff {a : Atom} (ha : a.Plain) {t : Tuple} (h : t.length = a.arity) :
    a.Matches t ↔ t = a.ground (a.valuation t) := by
  constructor
  · rintro ⟨hconstants, hequal⟩
    refine (eq_ground_iff h).mpr ⟨?_, ?_⟩
    · rintro ⟨i, v⟩ hp
      obtain ⟨k, rfl, u, hu, hconstant, rfl⟩ := (a.mem_constants i v).mp hp
      exact hconstants (u, _) ((mem_zip_terms h).mpr ⟨k, hu, rfl⟩)
        (by simpa [Term.isConstant] using hconstant)
    · intro name _ i hi j hj
      obtain ⟨k, rfl, u, hu, hopen, hname⟩ := (a.mem_placesOf name i).mp hi
      obtain ⟨l, rfl, w, hw, hopen', hname'⟩ := (a.mem_placesOf name j).mp hj
      have hu' := ha.eq_identifier (List.mem_of_getElem? hu) hopen
      have hw' := ha.eq_identifier (List.mem_of_getElem? hw) hopen'
      rw [hname] at hu'
      rw [hname'] at hw'
      exact (hequal (u, _) ((mem_zip_terms h).mpr ⟨k, hu, rfl⟩) (w, _)
        ((mem_zip_terms h).mpr ⟨l, hw, rfl⟩) (congrArg Term.kind hu') (hw'.trans hu'.symm)).symm
  · intro hground
    have hvalue : ∀ p ∈ a.terms.zip t, p.2 = p.1.under (a.valuation t) := by
      rintro ⟨u, v⟩ hp
      obtain ⟨k, hu, rfl⟩ := (mem_zip_terms h).mp hp
      rw [hground, value_ground hu, ← hground]
    constructor
    · intro p hp hkind
      rw [hvalue p hp, Term.under, if_pos (by simp [Term.isConstant, hkind])]
    · intro p hp q hq _ hsame
      rw [hvalue p hp, hvalue q hq, hsame]

/-- Two tuples that match differ in what is read off them. -/
theorem readOff_injective {a : Atom} (ha : a.Plain) {t u : Tuple} (ht : t.length = a.arity)
    (hu : u.length = a.arity) (hmatches : a.Matches t) (hmatches' : a.Matches u)
    (h : a.readOff t = a.readOff u) : t = u := by
  rw [(matches_iff ha ht).mp hmatches, (matches_iff ha hu).mp hmatches']
  rw [readOff, readOff, ← ha.openNames_eq] at h
  exact ground_congr fun name hname => List.map_inj_left.mp h name hname

/-- What a ground atom is matched by is the tuple of its constants. -/
theorem matches_iff_of_isGround {a : Atom} (hground : a.isGround = true) {t : Tuple}
    (h : t.length = a.arity) : a.Matches t ↔ t = a.terms.map (·.value) := by
  have hconstant : ∀ u ∈ a.terms, u.isConstant = true := List.all_eq_true.mp hground
  have hplain : a.Plain := fun u hu => .inr (by simpa [Term.isConstant] using hconstant u hu)
  have hsame : a.ground (a.valuation t) = a.terms.map (·.value) :=
    List.map_congr_left fun u hu => if_pos (hconstant u hu)
  rw [matches_iff hplain h, hsame]

end Atom

namespace Relation

variable {digest : Digest} {r s : Relation digest} {q : Atom}

/-- The tuples that match an atom, in the order of the relation. -/
def matching (r : Relation digest) (q : Atom) : List Tuple := r.tuples.filter (q.Matches ·)

theorem mem_matching {t : Tuple} : t ∈ r.matching q ↔ t ∈ r.tuples ∧ q.Matches t := by
  rw [matching, List.mem_filter, decide_eq_true_iff]

/-- `s` is what the relation `r` answers to the query `q`. -/
structure IsAnswer (r : Relation digest) (q : Atom) (s : Relation digest) : Prop where
  name_eq : s.name = q.name
  schema_eq : s.schema = q.identifiers
  tuples_eq : s.tuples = (r.matching q).map q.readOff
  /-- No two tuples are read off as one. -/
  injective : ∀ t ∈ r.matching q, ∀ u ∈ r.matching q, q.readOff t = q.readOff u → t = u
  size_eq : s.size = (r.matching q).length
  size_of_isGround : q.isGround = true →
    s.size = if q.terms.map (·.value) ∈ r.tuples then 1 else 0

theorem length_matching_of_isGround (hr : r.WellFormed) (harity : q.arity = r.arity)
    (hground : q.isGround = true) :
    (r.matching q).length = if q.terms.map (·.value) ∈ r.tuples then 1 else 0 := by
  have hfilter : r.matching q = r.tuples.filter (· == q.terms.map (·.value)) := by
    apply List.filter_congr
    intro t ht
    rw [Bool.eq_iff_iff, decide_eq_true_iff, beq_iff_eq]
    exact Atom.matches_iff_of_isGround hground ((hr.arity t ht).trans harity.symm)
  have hnodup : r.tuples.Nodup := hr.set.nodup
  rw [hfilter, ← List.countP_eq_length_filter, ← List.count, hnodup.count]

theorem isAnswer_of_instances (hr : r.WellFormed) (hq : q.Plain) (harity : q.arity = r.arity) :
    ∃ s, r.instances q = .ok s ∧ r.IsAnswer q s := by
  obtain ⟨s, hs, hname, hschema, htuples⟩ := instances_spec hr harity
  have hlength : ∀ t ∈ r.tuples, t.length = q.arity :=
    fun t ht => (hr.arity t ht).trans harity.symm
  have hmatching : s.tuples = (r.matching q).map q.readOff := by
    rw [htuples, hq.openNames_eq, matching]
    refine congrArg (List.map q.readOff) (List.filter_congr fun t ht => ?_)
    exact decide_eq_decide.mpr (Atom.matches_iff hq (hlength t ht)).symm
  have hsize : s.size = (r.matching q).length := by
    rw [size_eq_length, hmatching, List.length_map]
  refine ⟨s, hs, ?_⟩
  constructor
  case name_eq => exact hname
  case schema_eq => rw [hschema, hq.openNames_eq]
  case tuples_eq => exact hmatching
  case injective =>
    intro t ht u hu
    obtain ⟨ht, hmatches⟩ := mem_matching.mp ht
    obtain ⟨hu, hmatches'⟩ := mem_matching.mp hu
    exact Atom.readOff_injective hq (hlength t ht) (hlength u hu) hmatches hmatches'
  case size_eq => exact hsize
  case size_of_isGround =>
    intro hground
    rw [hsize, length_matching_of_isGround hr harity hground]

end Relation

namespace Database

variable {digest : Digest}

/-- A query fails for its relation or for its number of terms, and for nothing else. -/
theorem query_eq_error_iff {db : Database digest} (hdb : db.WellFormed) {q : Atom}
    {fault : Fault} :
    db.query q = .error fault ↔
      fault = .relationNotFound q.name ∧ db.find? q.name = none ∨
        ∃ r, db.find? q.name = some r ∧ q.arity ≠ r.arity ∧
          fault = .atomArity q.name q.arity r.arity := by
  cases hr : db.find? q.name with
  | none => simp [query, relation, hr, bind, Except.bind, eq_comm]
  | some r =>
      have hquery : db.query q = r.instances q := by
        rw [query, relation_eq_ok_iff.mpr hr]
        rfl
      by_cases harity : q.arity = r.arity
      · obtain ⟨s, hs, -⟩ := Relation.instances_spec (hdb.found hr) harity
        simp [hquery, hs, harity]
      · have hfails : r.instances q = .error (.atomArity q.name q.arity r.arity) := by
          rw [Relation.instances, if_neg harity]
          rfl
        simp [hquery, hfails, harity, eq_comm]

/-! ## Declared schemes -/

variable {requests : List (Request digest)}

theorem find?_ofRequests_iff {name : Bytes} {schema : List Bytes} :
    (∃ r, (ofRequests requests).find? name = some r ∧ r.schema = schema) ↔
      ∃ scheme ∈ empty.schemesFrom requests,
        scheme.name = name ∧ scheme.terms.map (·.value) = schema := by
  rw [← (sound_ofRequests requests).wellFormed.mem_signature_iff, signature_ofRequests,
    List.mem_map]
  simp only [entryOf, Prod.mk.injEq]

/-- A declared scheme has its relation. -/
theorem exists_find?_of_scheme {scheme : Atom} (h : scheme ∈ empty.schemesFrom requests) :
    ∃ r, (ofRequests requests).find? scheme.name = some r ∧ r.arity = scheme.arity := by
  obtain ⟨r, hr, hschema⟩ := find?_ofRequests_iff.mpr ⟨scheme, h, rfl, rfl⟩
  exact ⟨r, hr, by rw [Relation.arity, hschema, List.length_map, Atom.arity]⟩

/-- A relation has been declared by a scheme. -/
theorem exists_scheme_of_find? {name : Bytes} {r : Relation digest}
    (h : (ofRequests requests).find? name = some r) :
    ∃ scheme ∈ empty.schemesFrom requests, scheme.name = name ∧ r.arity = scheme.arity := by
  obtain ⟨scheme, hscheme, hname, hschema⟩ := find?_ofRequests_iff.mp ⟨r, h, rfl⟩
  exact ⟨scheme, hscheme, hname, by rw [Relation.arity, ← hschema, List.length_map, Atom.arity]⟩

/-! ## Queries -/

/-- What a database answers to a query after requests. -/
structure AnswersQuery (requests : List (Request digest)) (q : Atom) : Prop where
  /-- It fails when no such relation is declared, or one with another number of attributes. -/
  fails_iff : ∀ fault, (ofRequests requests).query q = .error fault ↔
    fault = .relationNotFound q.name ∧
        (∀ scheme ∈ empty.schemesFrom requests, scheme.name ≠ q.name) ∨
      ∃ scheme ∈ empty.schemesFrom requests, scheme.name = q.name ∧ q.arity ≠ scheme.arity ∧
        fault = .atomArity q.name q.arity scheme.arity
  /-- Otherwise there is an answer, and it is taken from the tuples that are stored. -/
  answered : ∀ scheme ∈ empty.schemesFrom requests,
    scheme.name = q.name → q.arity = scheme.arity →
      ∃ r s, (ofRequests requests).find? q.name = some r ∧
        (ofRequests requests).query q = .ok s ∧ r.IsAnswer q s

theorem find?_eq_none_iff_schemes {name : Bytes} :
    (ofRequests requests).find? name = none ↔
      ∀ scheme ∈ empty.schemesFrom requests, scheme.name ≠ name := by
  constructor
  · rintro h scheme hscheme rfl
    obtain ⟨r, hr, -⟩ := exists_find?_of_scheme hscheme
    cases h.symm.trans hr
  · intro h
    refine Option.eq_none_iff_forall_ne_some.mpr fun r hr => ?_
    obtain ⟨scheme, hscheme, hname, -⟩ := exists_scheme_of_find? hr
    exact h scheme hscheme hname

theorem ofRequests_answersQuery (requests : List (Request digest)) {q : Atom} (hq : q.Plain) :
    AnswersQuery requests q := by
  have hwell := (sound_ofRequests requests).wellFormed
  constructor
  case fails_iff =>
    intro fault
    rw [query_eq_error_iff hwell, find?_eq_none_iff_schemes]
    refine or_congr_right ⟨?_, ?_⟩
    · rintro ⟨r, hr, hne, rfl⟩
      obtain ⟨scheme, hscheme, hname, harity⟩ := exists_scheme_of_find? hr
      exact ⟨scheme, hscheme, hname, harity ▸ hne, by rw [harity]⟩
    · rintro ⟨scheme, hscheme, hname, hne, rfl⟩
      obtain ⟨r, hr, harity⟩ := exists_find?_of_scheme hscheme
      exact ⟨r, hname ▸ hr, harity ▸ hne, by rw [harity]⟩
  case answered =>
    intro scheme hscheme hname harity
    obtain ⟨r, hr, harity'⟩ := exists_find?_of_scheme hscheme
    rw [hname] at hr
    obtain ⟨s, hs, hanswer⟩ :=
      Relation.isAnswer_of_instances (hwell.found hr) hq (harity.trans harity'.symm)
    exact ⟨r, s, hr, query_eq_ok_iff.mpr ⟨r, hr, hs⟩, hanswer⟩

/-- A scheme that repeats its attributes, and a query that repeats an identifier
between a constant and another identifier. -/
theorem ofRequests_answersQuery_repeatedNames :
    let requests : List (Request fun _ => 0) :=
      [.declare ⟨"r", [.identifier "x", .identifier "y", .identifier "x", .identifier "y"]⟩,
        .addTuple "r" ["3", "1", "3", "b"], .addTuple "r" ["2", "1", "3", "b"],
        .addTuple "r" ["2", "1", "2", "a"], .addTuple "r" ["2", "2", "2", "a"]]
    let q : Atom := ⟨"r", [.identifier "v", .constant "1", .identifier "v", .identifier "w"]⟩
    q.Plain ∧ AnswersQuery requests q ∧
      ((ofRequests requests).query q).toOption.map (fun s => (s.schema, s.tuples)) =
        some ((["v", "w"], [["3", "b"], ["2", "a"]]) : List Bytes × List Tuple) := by
  intro requests q
  have hplain : q.Plain := by
    unfold Atom.Plain
    decide
  exact ⟨hplain, ofRequests_answersQuery requests hplain, by decide +kernel⟩

end Database

end LeastModel
