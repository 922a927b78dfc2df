import LeastModel.Proofs.AtomInstances
import LeastModel.Proofs.Database
import LeastModel.Proofs.Unobserved

/-!
# What one application of a rule adds

A rule *fires* under an assignment when the database has what its body atoms
stand for. Joining the instances of the body and picking the columns of the
head gives exactly what the head stands for under the assignments for which the
rule fires (`derive_spec`), and it fails exactly when the rule does not fit the
relations of the database (`derive_ok_iff`).
-/

namespace LeastModel

variable {digest : Digest}

/-- The body atoms stand for tuples that are there. -/
def Rule.Fires (rule : Rule) (tuples : Bytes → Set Tuple) (σ : Bytes → Bytes) : Prop :=
  ∀ atom ∈ rule.body, atom.ground σ ∈ tuples atom.name

/-- The relation of an atom is declared with as many attributes as it has terms. -/
def Database.Fits (db : Database digest) (atom : Atom) : Prop :=
  ∃ r, db.find? atom.name = some r ∧ atom.arity = r.arity

namespace Database

/-! ## Body atoms -/

theorem query_eq_ok_iff {db : Database digest} {atom : Atom} {s : Relation digest} :
    db.query atom = .ok s ↔ ∃ r, db.find? atom.name = some r ∧ r.instances atom = .ok s := by
  simp only [query, bind_eq_ok_iff, relation_eq_ok_iff]

theorem query_ok_iff {db : Database digest} (hdb : db.WellFormed) (atom : Atom) :
    (∃ s, db.query atom = .ok s) ↔ db.Fits atom := by
  constructor
  · rintro ⟨s, hs⟩
    obtain ⟨r, hr, hinstances⟩ := query_eq_ok_iff.mp hs
    exact ⟨r, hr, Relation.arity_of_instances hinstances⟩
  · rintro ⟨r, hr, harity⟩
    obtain ⟨s, hs, -⟩ := Relation.instances_spec (hdb.found hr) harity
    exact ⟨s, query_eq_ok_iff.mpr ⟨r, hr, hs⟩⟩

theorem query_spec
    {db : Database digest} (hdb : db.WellFormed) {atom : Atom} {s : Relation digest}
    (h : db.query atom = .ok s) :
    s.WellFormed ∧ s.schema = atom.openNames ∧
      ∀ σ, s.Holds σ ↔ atom.ground σ ∈ db.model atom.name := by
  obtain ⟨r, hr, hinstances⟩ := query_eq_ok_iff.mp h
  refine ⟨Relation.wellFormed_instances hinstances,
    Relation.schema_instances (hdb.found hr) hinstances, ?_⟩
  intro σ
  rw [Relation.holds_instances (hdb.found hr) hinstances, mem_model]
  simp [hr]

end Database

namespace Quiet

/-! ## Bodies -/

/-- What a relation that joins instances of atoms stands for. -/
structure Joins (db : Database digest) (atoms : List Atom) (joined : Relation digest) : Prop where
  wellFormed : joined.WellFormed
  nodup : joined.schema.Nodup
  /-- The attributes are the names of the atoms. -/
  mem_schema : ∀ name, name ∈ joined.schema ↔ ∃ atom ∈ atoms, name ∈ atom.openNames
  /-- The join holds where the database has what all the atoms stand for. -/
  holds_iff : ∀ σ, joined.Holds σ ↔ ∀ atom ∈ atoms, atom.ground σ ∈ db.model atom.name

theorem joins_query
    {db : Database digest} (hdb : db.WellFormed) {atom : Atom} {s : Relation digest}
    (h : db.query atom = .ok s) : Joins db [atom] s := by
  obtain ⟨hwell, hschema, hholds⟩ := Database.query_spec hdb h
  exact ⟨hwell, hschema ▸ atom.nodup_openNames, by simp [hschema], by simpa using hholds⟩

/-- Joining one more atom. -/
theorem Joins.join
    {db : Database digest} {atoms others : List Atom} {left right : Relation digest}
    (hleft : Joins db atoms left) (hright : Joins db others right) :
    Joins db (atoms ++ others) (left.join right) where
  wellFormed := hleft.wellFormed.join right
  nodup := Relation.nodup_schema_join hleft.nodup hright.nodup
  mem_schema := by
    intro name
    rw [Relation.schema_join, List.mem_append, List.mem_filter, decide_eq_true_iff,
      hleft.mem_schema, hright.mem_schema]
    simp only [List.mem_append, or_and_right, exists_or]
    by_cases hname : ∃ atom ∈ atoms, name ∈ atom.openNames
    · simp [hname]
    · simp [hname]
  holds_iff := by
    intro σ
    rw [Relation.holds_join hleft.wellFormed hright.wellFormed, hleft.holds_iff, hright.holds_iff,
      List.forall_mem_append]

theorem joinBody_some_spec
    {db : Database digest} (hdb : db.WellFormed) {rule : Rule} {seen atoms : List Atom}
    {left : Relation digest} (hleft : Joins db seen left) {r : Option (Relation digest)}
    (h : joinBody db rule atoms (some left) = .ok r) :
    ∃ joined, r = some joined ∧ Joins db (seen ++ atoms) joined := by
  induction atoms generalizing seen left with
  | nil =>
      cases Except.ok.inj h
      exact ⟨left, rfl, by simpa using hleft⟩
  | cons atom atoms ih =>
      obtain ⟨here, hhere, hrest⟩ := bind_eq_ok_iff.mp h
      have hjoins := hleft.join (joins_query hdb (mapError_eq_ok_iff.mp hhere))
      simpa using ih hjoins hrest

/-- A body that is not empty is joined as a whole. -/
theorem joinBody_spec
    {db : Database digest} (hdb : db.WellFormed) {rule : Rule} (hbody : rule.body ≠ [])
    {r : Option (Relation digest)} (h : joinBody db rule rule.body none = .ok r) :
    ∃ joined, r = some joined ∧ Joins db rule.body joined := by
  match hatoms : rule.body with
  | [] => exact absurd hatoms hbody
  | atom :: atoms =>
      rw [hatoms] at h
      obtain ⟨here, hhere, hrest⟩ := bind_eq_ok_iff.mp h
      exact joinBody_some_spec hdb (joins_query hdb (mapError_eq_ok_iff.mp hhere)) hrest

theorem joinBody_ok_iff
    {db : Database digest} (hdb : db.WellFormed) (rule : Rule) (atoms : List Atom)
    (joined : Option (Relation digest)) :
    (∃ r, joinBody db rule atoms joined = .ok r) ↔ ∀ atom ∈ atoms, db.Fits atom := by
  induction atoms generalizing joined with
  | nil => exact ⟨fun _ => by simp, fun _ => ⟨joined, rfl⟩⟩
  | cons atom atoms ih =>
      rw [List.forall_mem_cons, ← Database.query_ok_iff hdb]
      constructor
      · rintro ⟨r, h⟩
        obtain ⟨here, hhere, hrest⟩ := bind_eq_ok_iff.mp h
        refine ⟨⟨here, mapError_eq_ok_iff.mp hhere⟩, ?_⟩
        cases joined with
        | none => exact (ih _).mp ⟨r, hrest⟩
        | some left => exact (ih _).mp ⟨r, hrest⟩
      · rintro ⟨⟨here, hhere⟩, hatoms⟩
        have hnext : ∀ next, ∃ r, joinBody db rule atoms next = .ok r := fun next =>
          (ih next).mpr hatoms
        rw [joinBody, mapError_eq_ok_iff.mpr hhere]
        cases joined with
        | none => exact hnext _
        | some left => exact hnext _

end Quiet

/-! ## Heads -/

namespace Relation

theorem placesOf_ok_iff (r : Relation digest) (atom : Atom) (terms : List Term) :
    (∃ places, r.placesOf atom terms = .ok places) ↔
      ∀ t ∈ terms, t.isConstant = false ∧ t.value ∈ r.schema := by
  induction terms with
  | nil => exact ⟨fun _ => by simp, fun _ => ⟨[], rfl⟩⟩
  | cons t terms ih =>
      rw [List.forall_mem_cons, ← ih, placesOf]
      cases hconstant : t.isConstant with
      | true => simp
      | false =>
          cases hplace : r.placeOf? t.value with
          | none =>
              have hnot : t.value ∉ r.schema := fun hmem => by
                simpa using List.findIdx?_eq_none_iff.mp hplace _ hmem
              simp [hnot]
          | some i =>
              have hmem : t.value ∈ r.schema := by
                obtain ⟨hi, hname, -⟩ := List.findIdx?_eq_some_iff_getElem.mp hplace
                exact List.mem_of_getElem (by simpa using hname)
              simp only [Bool.false_eq_true, if_false, hmem, and_self, true_and]
              constructor
              · rintro ⟨places, hplaces⟩
                obtain ⟨others, hothers, -⟩ := bind_eq_ok_iff.mp hplaces
                exact ⟨others, hothers⟩
              · rintro ⟨others, hothers⟩
                exact ⟨i :: others, bind_eq_ok_iff.mpr ⟨others, hothers, rfl⟩⟩

/-- The places that the terms name carry the values of the terms. -/
theorem columns_placesOf
    {r : Relation digest} {atom : Atom} {terms : List Term} {places : List Nat}
    (h : r.placesOf atom terms = .ok places) (σ : Bytes → Bytes) :
    Tuple.columns (r.schema.map σ) places = terms.map (·.under σ) := by
  induction terms generalizing places with
  | nil => exact Except.ok.inj h ▸ rfl
  | cons t terms ih =>
      rw [placesOf] at h
      split at h
      · cases h
      · rename_i hconstant
        split at h
        · cases h
        · rename_i i hplace
          obtain ⟨others, hothers, hcons⟩ := bind_eq_ok_iff.mp h
          obtain ⟨hi, hname, -⟩ := List.findIdx?_eq_some_iff_getElem.mp hplace
          have hvalue : r.schema[i]? = some t.value := by
            rw [List.getElem?_eq_getElem hi, eq_of_beq hname]
          cases Except.ok.inj hcons
          rw [List.map_cons, ← ih hothers, Term.under, if_neg hconstant]
          exact congrArg (· :: _) (Tuple.value_map hvalue σ)

theorem arity_projectAtom
    {r s : Relation digest} {atom : Atom} (h : r.projectAtom atom = .ok s) :
    s.arity = atom.arity := by
  obtain ⟨places, hplaces, hs⟩ := bind_eq_ok_iff.mp h
  have hlength := congrArg List.length (columns_placesOf hplaces id)
  cases Except.ok.inj hs
  simpa [arity, columns, Tuple.columns, Atom.arity] using hlength

/-- Projecting onto an atom gives what the atom stands for where the relation holds. -/
theorem mem_projectAtom
    {r s : Relation digest} (hr : r.WellFormed) (hschema : r.schema.Nodup) {atom : Atom}
    (h : r.projectAtom atom = .ok s) (t : Tuple) :
    t ∈ s.tuples ↔ ∃ σ, r.Holds σ ∧ t = atom.ground σ := by
  obtain ⟨places, hplaces, hs⟩ := bind_eq_ok_iff.mp h
  cases Except.ok.inj hs
  rw [mem_columns]
  constructor
  · rintro ⟨u, hu, rfl⟩
    obtain ⟨σ, rfl, hσ⟩ := (hr.mem_iff_holds hschema u).mp hu
    exact ⟨σ, hσ, columns_placesOf hplaces σ⟩
  · rintro ⟨σ, hσ, rfl⟩
    exact ⟨r.schema.map σ, hσ, columns_placesOf hplaces σ⟩

end Relation

/-! ## Whole rules -/

/-- Every term of the head names a variable of the body. -/
def Rule.Bound (rule : Rule) : Prop :=
  ∀ t ∈ rule.head.terms, t.isConstant = false ∧ ∃ atom ∈ rule.body, t.value ∈ atom.openNames

/-- The rule fits the relations of the database. -/
structure Database.Admits (db : Database digest) (rule : Rule) : Prop where
  head : db.Fits rule.head
  body : ∀ atom ∈ rule.body, db.Fits atom
  bound : rule.Bound

/-- Whether an atom fits depends on the signature only. -/
theorem Database.Fits.of_signature
    {db db' : Database digest} (hdb : db.WellFormed) (hdb' : db'.WellFormed) {atom : Atom}
    (h : db.Fits atom) (hsignature : db'.signature = db.signature) : db'.Fits atom := by
  obtain ⟨r, hr, harity⟩ := h
  obtain ⟨r', hr', hschema⟩ := exists_find?_of_signature hdb hdb' hsignature hr
  refine ⟨r', hr', ?_⟩
  rw [harity, Relation.arity, Relation.arity, hschema]

theorem Database.Admits.of_signature
    {db db' : Database digest} (hdb : db.WellFormed) (hdb' : db'.WellFormed) {rule : Rule}
    (h : db.Admits rule) (hsignature : db'.signature = db.signature) : db'.Admits rule where
  head := h.head.of_signature hdb hdb' hsignature
  body := fun atom hatom => (h.body atom hatom).of_signature hdb hdb' hsignature
  bound := h.bound

/-- What a rule adds: the head under the assignments for which the rule fires. -/
def Rule.Yields (rule : Rule) (tuples : Bytes → Set Tuple) (t : Tuple) : Prop :=
  ∃ σ, rule.Fires tuples σ ∧ t = rule.head.ground σ

namespace Quiet

theorem derive_eq_ok_iff
    {db : Database digest} (hdb : db.WellFormed) {rule : Rule} (hbody : rule.body ≠ [])
    {a : Rule.Application digest} :
    derive db rule = .ok a ↔
      ∃ joined projected, joinBody db rule rule.body none = .ok (some joined) ∧
        joined.projectAtom rule.head = .ok projected ∧
        db.merge rule.head.name projected = (.ok a.added, a.database) ∧
        a.derived = projected.size := by
  rw [derive, bind_eq_ok_iff]
  constructor
  · rintro ⟨r, hr, h⟩
    obtain ⟨joined, rfl, -⟩ := joinBody_spec hdb hbody hr
    obtain ⟨projected, hprojected, h⟩ := bind_eq_ok_iff.mp h
    obtain ⟨added, hadded, h⟩ := bind_eq_ok_iff.mp h
    cases Except.ok.inj h
    exact ⟨joined, projected, hr, mapError_eq_ok_iff.mp hprojected,
      Prod.ext (mapError_eq_ok_iff.mp hadded) rfl, rfl⟩
  · rintro ⟨joined, projected, hjoined, hprojected, hmerge, hderived⟩
    refine ⟨some joined, hjoined, ?_⟩
    refine bind_eq_ok_iff.mpr ⟨projected, mapError_eq_ok_iff.mpr hprojected, ?_⟩
    rw [hmerge, ← hderived]
    rfl

/-- A rule can be applied when it fits the database. -/
theorem derive_ok_iff
    {db : Database digest} (hdb : db.WellFormed) {rule : Rule} (hbody : rule.body ≠ []) :
    (∃ a, derive db rule = .ok a) ↔ db.Admits rule := by
  constructor
  · rintro ⟨a, ha⟩
    obtain ⟨joined, projected, hjoined, hprojected, hmerge, -⟩ :=
      (derive_eq_ok_iff hdb hbody).mp ha
    obtain ⟨_, ⟨rfl⟩, hjoins⟩ := joinBody_spec hdb hbody hjoined
    obtain ⟨current, hcurrent, harity, -, -⟩ := Database.merge_eq_ok_iff.mp hmerge
    obtain ⟨places, hplaces, -⟩ := bind_eq_ok_iff.mp hprojected
    refine ⟨⟨current, hcurrent, ?_⟩, (joinBody_ok_iff hdb rule _ _).mp ⟨_, hjoined⟩, ?_⟩
    · rw [← harity, Relation.arity_projectAtom hprojected]
    · intro t ht
      obtain ⟨hopen, hmem⟩ := (joined.placesOf_ok_iff _ _).mp ⟨places, hplaces⟩ t ht
      exact ⟨hopen, (hjoins.mem_schema _).mp hmem⟩
  · rintro ⟨⟨current, hcurrent, harity⟩, hatoms, hbound⟩
    obtain ⟨r, hr⟩ := (joinBody_ok_iff hdb rule rule.body none).mpr hatoms
    obtain ⟨joined, rfl, hjoins⟩ := joinBody_spec hdb hbody hr
    obtain ⟨places, hplaces⟩ := (joined.placesOf_ok_iff rule.head rule.head.terms).mpr
      fun t ht => ⟨(hbound t ht).1, (hjoins.mem_schema _).mpr (hbound t ht).2⟩
    have hprojected : joined.projectAtom rule.head = .ok (joined.columns places) :=
      bind_eq_ok_iff.mpr ⟨places, hplaces, rfl⟩
    have hmerge := Database.merge_eq_ok_iff.mpr ⟨current, hcurrent,
      (Relation.arity_projectAtom hprojected).trans harity, rfl, rfl⟩
    exact ⟨⟨_, _, _⟩, (derive_eq_ok_iff hdb hbody).mpr
      ⟨joined, _, hr, hprojected, hmerge, rfl⟩⟩

/-- One application merges exactly what the rule yields into the head relation. -/
theorem derive_merges
    {db : Database digest} (hdb : db.WellFormed) {rule : Rule} (hbody : rule.body ≠ [])
    {a : Rule.Application digest} (h : derive db rule = .ok a) :
    ∃ projected : Relation digest, projected.WellFormed ∧
      (∀ t, t ∈ projected.tuples ↔ rule.Yields db.model t) ∧
      db.merge rule.head.name projected = (.ok a.added, a.database) ∧
      a.derived = projected.size := by
  obtain ⟨joined, projected, hjoined, hprojected, hmerge, hderived⟩ :=
    (derive_eq_ok_iff hdb hbody).mp h
  obtain ⟨_, ⟨rfl⟩, hjoins⟩ := joinBody_spec hdb hbody hjoined
  refine ⟨projected, Relation.wellFormed_projectAtom hprojected, ?_, hmerge, hderived⟩
  intro t
  rw [Relation.mem_projectAtom hjoins.wellFormed hjoins.nodup hprojected]
  simp only [Rule.Yields, Rule.Fires, hjoins.holds_iff]

theorem derive_spec
    {db : Database digest} (hdb : db.WellFormed) {rule : Rule} (hbody : rule.body ≠ [])
    {a : Rule.Application digest} (h : derive db rule = .ok a) :
    ∃ ts, db.GrowsBy rule.head.name ts a.database ∧ ∀ t, t ∈ ts ↔ rule.Yields db.model t := by
  obtain ⟨projected, hwell, hyields, hmerge, -⟩ := derive_merges hdb hbody h
  exact ⟨projected.tuples, Database.growsBy_of_merge hwell hmerge, hyields⟩

end Quiet

end LeastModel
