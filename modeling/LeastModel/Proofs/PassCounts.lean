import LeastModel.Proofs.RuleChecks

/-!
# How many passes a group needs

The passes over a group are listed with the numbers of tuples that they add
(`Group.Passes`). The list ends where evaluation does (`Group.Ends`): with the
first entry where the group does not read what it derives, and otherwise with
the first entry that is zero. Such an end is always reached (`exists_passes`),
because rules make no new values; and only the heads of a group take in tuples,
so that no more are added than these heads can hold
(`tupleCount_le_headCapacity`).

Rules without bodies are let through by the checks where their heads have no
terms. They derive nothing, so that passes over them and over the other rules
are the same (`pass_filter`).
-/

namespace LeastModel

variable {digest : Digest}

namespace Quiet

/-! ## Passes over arbitrary rules -/

theorem derive_of_body_nil {rule : Rule} (h : rule.body = []) (db : Database digest) :
    derive db rule = .ok ⟨db, 0, 0⟩ := by
  rw [derive, h]
  rfl

theorem pass_filter (rules : List Rule) (db : Database digest) (n : Nat) :
    pass (rules.filter (·.body ≠ [])) db n = pass rules db n := by
  induction rules generalizing db n with
  | nil => rfl
  | cons rule rules ih =>
      by_cases hbody : rule.body = []
      · rw [List.filter_cons_of_neg (by simpa using hbody), ih, pass, derive_of_body_nil hbody,
          ok_bind, Nat.add_zero]
      · rw [List.filter_cons_of_pos (by simpa using hbody), pass, pass]
        simp only [ih]

theorem pass_spec {rules : List Rule} {db db' : Database digest} (hdb : db.WellFormed) {added : Nat}
    (h : pass rules db 0 = .ok (db', added)) :
    Advances rules db db' ∧ db'.tupleCount = db.tupleCount + added := by
  rw [← pass_filter] at h
  have hbodies : ∀ rule ∈ rules.filter (·.body ≠ []), rule.body ≠ [] := by
    intro rule hrule
    simpa using (List.mem_filter.mp hrule).2
  constructor
  · apply (advances_of_pass hbodies hdb h).mono
    exact fun rule hrule => (List.mem_filter.mp hrule).1
  · exact (tupleCount_pass hbodies hdb h).1

theorem exists_pass {rules : List Rule} {db : Database digest} (hdb : db.WellFormed)
    (hadmits : ∀ rule ∈ rules, db.Admits rule) :
    ∃ next added, pass rules db 0 = .ok (next, added) := by
  have hbodies : ∀ rule ∈ rules.filter (·.body ≠ []), rule.body ≠ [] := by
    intro rule hrule
    simpa using (List.mem_filter.mp hrule).2
  obtain ⟨⟨next, added⟩, hpass⟩ := (pass_ok_iff hbodies hdb 0).mpr
    fun rule hrule => hadmits rule (List.mem_filter.mp hrule).1
  exact ⟨next, added, (pass_filter rules db 0).symm.trans hpass⟩

end Quiet

/-! ## Lists of passes -/

namespace Group

/-- Passes over a group lead from one database to another and add the listed
numbers of tuples, whoever watches. -/
inductive Passes (options : Options) (group : Group) :
    Database digest → List Nat → Database digest → Prop
  | nil (db : Database digest) : Passes options group db [] db
  | cons {db next last : Database digest} {added : Nat} {adds : List Nat}
      (hpass : (group.pass options db).Yields (.ok (next, added)))
      (hrest : Passes options group next adds last) : Passes options group db (added :: adds) last

/-- A group that reads what it derives ends with a pass that adds nothing, and
has made no such pass before; any other group makes one pass. -/
def Ends (group : Group) (adds : List Nat) : Prop :=
  if group.recursive then ∃ earlier, adds = earlier ++ [0] ∧ ∀ n ∈ earlier, 0 < n
  else adds.length = 1

theorem yields_pass_iff {options : Options} {group : Group} {db : Database digest}
    {r : Except Fault (Database digest × Nat)} :
    (group.pass options db).Yields r ↔ Quiet.pass group.rules db 0 = r := by
  constructor
  · intro h
    exact (group.pass_yields options db (.new false)).symm.trans (h _)
  · rintro rfl
    exact group.pass_yields options db

theorem Passes.of_options {options options' : Options} {group : Group} {db last : Database digest}
    {adds : List Nat} (h : group.Passes options db adds last) :
    group.Passes options' db adds last := by
  induction h with
  | nil db => exact .nil db
  | cons hpass _ ih => exact .cons (yields_pass_iff.mpr (yields_pass_iff.mp hpass)) ih

theorem Passes.spec {options : Options} {group : Group} {db last : Database digest}
    {adds : List Nat} (h : group.Passes options db adds last) (hdb : db.WellFormed) :
    Quiet.Advances group.rules db last ∧ last.tupleCount = db.tupleCount + Number.total adds := by
  induction h with
  | nil db => exact ⟨.refl hdb, rfl⟩
  | cons hpass _ ih =>
      obtain ⟨hnext, hcount⟩ := Quiet.pass_spec hdb (yields_pass_iff.mp hpass)
      obtain ⟨hrest, hcounts⟩ := ih hnext.wellFormed
      refine ⟨hnext.trans hrest, ?_⟩
      rw [Number.total_cons]
      omega

/-! ## How a list of passes ends -/

theorem ends_cons_of_pos {group : Group} {added : Nat} {adds : List Nat}
    (hrecursive : group.recursive = true) (hadded : 0 < added) (h : group.Ends adds) :
    group.Ends (added :: adds) := by
  rw [Ends, if_pos hrecursive] at h ⊢
  obtain ⟨earlier, rfl, hearlier⟩ := h
  exact ⟨added :: earlier, rfl, List.forall_mem_cons.mpr ⟨hadded, hearlier⟩⟩

theorem ends_singleton {group : Group} {added : Nat} (h : added = 0 ∨ group.recursive = false) :
    group.Ends [added] := by
  rw [Ends]
  by_cases hrecursive : group.recursive = true
  · rw [if_pos hrecursive]
    have hnone : added = 0 := h.resolve_right (by simp [hrecursive])
    exact ⟨[], by simp [hnone], by simp⟩
  · rw [if_neg hrecursive]
    rfl

theorem Ends.cases {group : Group} {added : Nat} {adds : List Nat}
    (h : group.Ends (added :: adds)) :
    adds = [] ∧ (added = 0 ∨ group.recursive = false) ∨
      group.recursive = true ∧ 0 < added ∧ group.Ends adds := by
  by_cases hrecursive : group.recursive = true
  · rw [Ends, if_pos hrecursive] at h
    obtain ⟨earlier, hadds, hearlier⟩ := h
    cases earlier with
    | nil =>
        obtain ⟨hnone, hnil⟩ := List.cons.inj hadds
        exact .inl ⟨hnil, .inl hnone⟩
    | cons n earlier =>
        obtain ⟨rfl, rfl⟩ := List.cons.inj hadds
        obtain ⟨hpos, hearlier⟩ := List.forall_mem_cons.mp hearlier
        refine .inr ⟨hrecursive, hpos, ?_⟩
        rw [Ends, if_pos hrecursive]
        exact ⟨earlier, rfl, hearlier⟩
  · rw [Ends, if_neg hrecursive] at h
    have hnil : adds = [] := List.length_eq_zero_iff.mp (Nat.succ.inj h)
    exact .inl ⟨hnil, .inr (by simpa using hrecursive)⟩

theorem not_ends_nil {group : Group} : ¬group.Ends [] := by
  rw [Ends]
  split
  · rintro ⟨earlier, hnil, -⟩
    simp at hnil
  · simp

theorem Ends.length_pos {group : Group} {adds : List Nat} (h : group.Ends adds) :
    0 < adds.length := by
  apply List.length_pos_iff.mpr
  rintro rfl
  exact not_ends_nil h

theorem Ends.length_le {group : Group} {adds : List Nat} (h : group.Ends adds) :
    adds.length ≤ Number.total adds + 1 := by
  induction adds with
  | nil => simp
  | cons added adds ih =>
      rw [List.length_cons, Number.total_cons]
      rcases h.cases with ⟨rfl, -⟩ | ⟨-, hadded, hrest⟩
      · simp
      · have hle := ih hrest
        omega

/-- Every group comes to an end. The tuples that are still missing are at most
the room that is left, and each pass that is not the last one finds some. -/
theorem exists_passes (options : Options) {group : Group} {start db : Database digest}
    (hstart : start.WellFormed) (hadvances : Quiet.Advances group.rules start db)
    (hadmits : ∀ rule ∈ group.rules, db.Admits rule) {room : Nat}
    (hroom : start.capacity ≤ db.tupleCount + room) :
    ∃ adds finish, group.Passes options db adds finish ∧ group.Ends adds := by
  induction room using Nat.strongRecOn generalizing db with
  | _ room ih =>
      obtain ⟨next, added, hpass⟩ := Quiet.exists_pass hadvances.wellFormed hadmits
      obtain ⟨hnext, hcount⟩ := Quiet.pass_spec hadvances.wellFormed hpass
      have hyields : (group.pass options db).Yields (.ok (next, added)) := yields_pass_iff.mpr hpass
      by_cases hlast : added = 0 ∨ group.recursive = false
      · exact ⟨[added], next, .cons hyields (.nil next), ends_singleton hlast⟩
      · obtain ⟨hadded, hrecursive⟩ := not_or.mp hlast
        have hle := (hadvances.trans hnext).tupleCount_le hstart
          fun rule hrule => (hadmits rule hrule).bound
        have hagain : ∀ rule ∈ group.rules, next.Admits rule := fun rule hrule =>
          (hnext.admits_iff hadvances.wellFormed rule).mpr (hadmits rule hrule)
        obtain ⟨adds, finish, hpasses, hends⟩ :=
          ih (room - 1) (by omega) (hadvances.trans hnext) hagain (by omega)
        refine ⟨added :: adds, finish, .cons hyields hpasses, ?_⟩
        exact ends_cons_of_pos (by simpa using hrecursive) (Nat.pos_of_ne_zero hadded) hends

end Group

/-! ## What the heads of a group can hold -/

theorem Number.total_le_add_filter {α : Type} {p : α → Bool} {f g : α → Nat} {xs ys : List α}
    (h : List.Forall₂ (fun x y => f y ≤ f x + if p x then g x else 0) xs ys) :
    Number.total (ys.map f) ≤ Number.total (xs.map f) + Number.total ((xs.filter p).map g) := by
  induction h with
  | nil => exact le_rfl
  | @cons x y xs ys hle _ ih =>
      rw [List.map_cons, List.map_cons, Number.total_cons, Number.total_cons, List.filter_cons]
      by_cases hx : p x = true
      · rw [if_pos hx] at hle ⊢
        rw [List.map_cons, Number.total_cons]
        omega
      · rw [if_neg hx] at hle ⊢
        omega

/-- The number of tuples over `n` values in those relations of a database that are
heads of a group. -/
def Database.headCapacity (db : Database digest) (group : Group) (n : Nat) : Nat :=
  Number.total ((db.relations.filter fun r =>
    group.rules.any fun rule => rule.head.name == r.name).map fun r => n ^ r.arity)

namespace Database

theorem headCapacity_of_signature {db db' : Database digest} (h : db'.signature = db.signature)
    (group : Group) (n : Nat) : db'.headCapacity group n = db.headCapacity group n := by
  have hsignature : ∀ e : Database digest, e.headCapacity group n =
      Number.total ((e.signature.filter fun s =>
        group.rules.any fun rule => rule.head.name == s.1).map fun s => n ^ s.2.length) := by
    intro e
    rw [headCapacity, signature, List.filter_map, List.map_map]
    rfl
  rw [hsignature, h, ← hsignature]

theorem size_eq_of_model {db db' : Database digest} (hdb : db.WellFormed) (hdb' : db'.WellFormed)
    {r r' : Relation digest} (hr : r ∈ db.relations) (hr' : r' ∈ db'.relations)
    (hname : r.name = r'.name) (h : db'.model r.name = db.model r.name) : r'.size = r.size := by
  have hfound := hdb.mem_relations_iff.mp hr
  have hfound' := hdb'.mem_relations_iff.mp hr'
  rw [← hname] at hfound'
  have hmem : ∀ t, t ∈ r'.tuples ↔ t ∈ r.tuples := by
    intro t
    have hiff : t ∈ db'.model r.name ↔ t ∈ db.model r.name := by rw [h]
    simpa [mem_model, hfound, hfound'] using hiff
  have hnodup : r.tuples.Nodup := (hdb.of_mem hr).set.nodup
  have hnodup' : r'.tuples.Nodup := (hdb'.of_mem hr').set.nodup
  have hperm : r'.tuples.Perm r.tuples := (List.perm_ext_iff_of_nodup hnodup' hnodup).mpr hmem
  rw [r'.size_eq_length, r.size_eq_length, hperm.length_eq]

/-- A database that grows in the heads of a group only, over given values, grows
by no more than these heads can hold. -/
theorem tupleCount_le_headCapacity {db db' : Database digest} (hdb : db.WellFormed) {group : Group}
    (hadvances : Quiet.Advances group.rules db db') {values : List Bytes}
    (hvalues : ∀ name, ∀ t ∈ db'.model name, ∀ v ∈ t, v ∈ values) :
    db'.tupleCount ≤ db.tupleCount + db.headCapacity group values.length := by
  have hdb' := hadvances.wellFormed
  -- Relation by relation: heads are bounded by the values, and the others stay as they are.
  have hsize : List.Forall₂ (fun r r' : Relation digest =>
      r'.size ≤ r.size + if group.rules.any fun rule => rule.head.name == r.name then
        values.length ^ r.arity else 0) db.relations db'.relations := by
    apply (forall₂_of_signature hadvances.signature_eq.symm).imp
    rintro r r' ⟨hr, hr', hname, hschema⟩
    by_cases hhead : (group.rules.any fun rule => rule.head.name == r.name) = true
    · rw [if_pos hhead]
      have hle := Relation.size_le_pow (hdb'.of_mem hr') fun t ht =>
        hvalues r'.name t ⟨r', hdb'.mem_relations_iff.mp hr', ht⟩
      rw [Relation.arity, ← hschema] at hle
      exact Nat.le_add_left_of_le hle
    · rw [if_neg hhead, Nat.add_zero]
      apply le_of_eq
      apply size_eq_of_model hdb hdb' hr hr' hname
      apply hadvances.frame
      simpa using hhead
  rw [hdb'.tupleCount_eq, hdb.tupleCount_eq]
  exact Number.total_le_add_filter hsize

end Database

end LeastModel
