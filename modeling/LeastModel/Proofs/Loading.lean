import LeastModel.Proofs.Consequence

/-!
# Loading facts

Facts are added when each of them has only constants and fits its relation
(`addFacts_ok_iff`), whatever has been added before. So all values of a loaded
database are constants of the facts (`mem_domain_of_load`), which the domain of
the program lists in ascending order (`domain_ascending`).
-/

namespace LeastModel

variable {digest : Digest}

/-! ## The domain of a program -/

theorem Bytes.le_iff (bs cs : Bytes) : Bytes.le bs cs = true ↔ bs ≤ cs := by
  induction bs generalizing cs with
  | nil => simp [le]
  | cons b bs ih =>
      match cs with
      | [] => simp [le]
      | c :: cs => simp [le, ih, List.cons_le_cons_iff]

theorem pairwise_mergeSort_of_iff {α : Type} [LE α] [Std.IsLinearPreorder α]
    {le : α → α → Bool} (hle : ∀ a b, le a b = true ↔ a ≤ b) (xs : List α) :
    (xs.mergeSort le).Pairwise (· ≤ ·) := by
  refine (List.pairwise_mergeSort ?_ ?_ xs).imp fun {a b} hab => (hle a b).mp hab
  · intro a b c hab hbc
    rw [hle] at *
    exact Std.le_trans hab hbc
  · intro a b
    rw [Bool.or_eq_true, hle, hle]
    exact Std.le_total

theorem mergeSort_eq_of_perm {α : Type} [LE α] [Std.IsLinearOrder α] {le : α → α → Bool}
    (hle : ∀ a b, le a b = true ↔ a ≤ b) {xs ys : List α} (h : xs.Perm ys) :
    xs.mergeSort le = ys.mergeSort le := by
  have hperm := ((List.mergeSort_perm xs le).trans h).trans (List.mergeSort_perm ys le).symm
  exact hperm.eq_of_pairwise (fun _ _ _ _ => Std.le_antisymm) (pairwise_mergeSort_of_iff hle xs)
    (pairwise_mergeSort_of_iff hle ys)

namespace Program

theorem mem_domain (p : Program) (v : Bytes) :
    v ∈ p.domain ↔ ∃ fact ∈ p.facts, Term.constant v ∈ fact.terms := by
  have hconstant : ∀ t : Term, t.isConstant = true ∧ t.value = v ↔ t = .constant v := by
    rintro ⟨kind, value⟩
    simp [Term.isConstant, Term.constant]
  simp only [domain, List.mem_mergeSort, List.mem_eraseDups, List.mem_flatMap, List.mem_map,
    List.mem_filter, and_assoc, hconstant, exists_eq_right]

theorem domain_ascending (p : Program) : p.domain.Pairwise (· < ·) := by
  have hsorted : p.domain.Pairwise (· ≤ ·) := pairwise_mergeSort_of_iff Bytes.le_iff _
  have hnodup : p.domain.Nodup :=
    (List.mergeSort_perm _ _).nodup_iff.mpr (FirstOccurrences.nodup_eraseDups _)
  apply (hsorted.and hnodup).imp
  rintro v w ⟨hle, hne⟩
  exact Std.lt_of_le_of_ne hle hne

end Program

/-! ## Facts -/

namespace Database

theorem Fits.iff_of_signature {db db' : Database digest} (hdb : db.WellFormed)
    (hdb' : db'.WellFormed) (h : db'.signature = db.signature) (atom : Atom) :
    db'.Fits atom ↔ db.Fits atom :=
  ⟨fun hfits => hfits.of_signature hdb' hdb h.symm, fun hfits => hfits.of_signature hdb hdb' h⟩

/-- A fact is added when it has only constants and fits its relation. -/
theorem addFact_ok_iff (db : Database digest) (fact : Atom) :
    (∃ new db', db.addFact fact = (.ok new, db')) ↔ fact.isGround = true ∧ db.Fits fact := by
  simp only [addFact_eq_ok_iff, addTuple_eq_ok_iff]
  constructor
  · rintro ⟨new, db', hground, r, hr, hlength, -⟩
    exact ⟨hground, r, hr, by simpa [Atom.arity] using hlength⟩
  · rintro ⟨hground, r, hr, harity⟩
    exact ⟨_, _, hground, r, hr, by simpa [Atom.arity] using harity, rfl, rfl⟩

theorem signature_addFacts {db db' : Database digest} (hdb : db.WellFormed) {facts : List Atom}
    (h : db.addFacts facts = .ok db') : db'.signature = db.signature := by
  induction facts generalizing db with
  | nil => exact Except.ok.inj h ▸ rfl
  | cons fact facts ih =>
      obtain ⟨new, added, hadded, hrest⟩ := addFacts_cons_eq_ok_iff.mp h
      have hgrows := growsBy_of_addFact hadded
      rw [ih (hgrows.wellFormed hdb) hrest, hgrows.signature_eq hdb]

theorem addFacts_ok_iff {db : Database digest} (hdb : db.WellFormed) (facts : List Atom) :
    (∃ db', db.addFacts facts = .ok db') ↔
      ∀ fact ∈ facts, fact.isGround = true ∧ db.Fits fact := by
  induction facts generalizing db with
  | nil => exact ⟨fun _ => by simp, fun _ => ⟨db, rfl⟩⟩
  | cons fact facts ih =>
      rw [List.forall_mem_cons, ← addFact_ok_iff]
      constructor
      · rintro ⟨db', h⟩
        obtain ⟨new, added, hadded, hrest⟩ := addFacts_cons_eq_ok_iff.mp h
        have hgrows := growsBy_of_addFact hadded
        have hwell := hgrows.wellFormed hdb
        refine ⟨⟨new, added, hadded⟩, ?_⟩
        simpa only [Fits.iff_of_signature hdb hwell (hgrows.signature_eq hdb)] using
          (ih hwell).mp ⟨db', hrest⟩
      · rintro ⟨⟨new, added, hadded⟩, hfacts⟩
        have hgrows := growsBy_of_addFact hadded
        have hwell := hgrows.wellFormed hdb
        simp only [← Fits.iff_of_signature hdb hwell (hgrows.signature_eq hdb)] at hfacts
        obtain ⟨db', hrest⟩ := (ih hwell).mpr hfacts
        exact ⟨db', addFacts_cons_eq_ok_iff.mpr ⟨new, added, hadded, hrest⟩⟩

/-- A loaded database has no other values than the domain of the program. -/
theorem mem_domain_of_load {p : Program} {db : Database digest} (h : load p = .ok db)
    {name : Bytes} {t : Tuple} (ht : t ∈ db.model name) {v : Bytes} (hv : v ∈ t) :
    v ∈ p.domain := by
  obtain ⟨declared, hdeclared, hfacts⟩ := bind_eq_ok_iff.mp h
  have hwell := (declareAll_spec wellFormed_empty hdeclared).1
  obtain ⟨fact, hfact, -, rfl⟩ := ((load_spec h).2 name t).mp ht
  obtain ⟨hground, -⟩ := (addFacts_ok_iff hwell p.facts).mp ⟨db, hfacts⟩ fact hfact
  obtain ⟨u, hu, rfl⟩ := List.mem_map.mp hv
  have hconstant : u = .constant u.value := by
    have hkind : u.kind = .constant := by
      simpa [Term.isConstant] using List.all_eq_true.mp hground u hu
    rw [Term.constant, ← hkind]
  exact (p.mem_domain _).mpr ⟨fact, hfact, hconstant ▸ hu⟩

end Database

/-- After facts are loaded and rules pass their checks, groups and queries are left. -/
theorem Quiet.evaluate_of_valid {options : Options} {p : Program} {db : Database digest}
    (hload : Database.load p = .ok db) (hvalid : db.validate p.rules = .ok ()) :
    (evaluate options p : Except Fault (Result digest)) =
      evaluateGroups options (Plan.ofRules p.rules).groups db >>= fun r =>
        answerQueries r.2 p.queries >>= fun answers =>
          .ok ⟨answers, r.1, Plan.ofRules p.rules, r.2⟩ := by
  rw [evaluate_eq, hload, ok_bind, hvalid, ite_self, ok_bind]

end LeastModel
