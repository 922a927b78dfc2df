import LeastModel.Proofs.Consequence

/-!
# What passes over rules do to a database

Whatever rules are applied, how often and in which order, a database advances
in the same way: its signature stays, its tuples become more, a relation that no
rule derives stays as it is, and nothing is added that a family of tuples closed
under the rules could be without. `Advances` says all of this; it is kept by one
application (`advances_of_derive`) and by going on (`Advances.trans`), and so by
passes, by groups and by whole runs.
-/

namespace LeastModel

variable {digest : Digest}

/-! ## Rules and families of tuples -/

namespace Rule

/-- Where the body of the rule holds, its head does. -/
def SatisfiedBy (rule : Rule) (tuples : Bytes → Set Tuple) : Prop :=
  ∀ σ, rule.Fires tuples σ → rule.head.ground σ ∈ tuples rule.head.name

/-- A rule that fires goes on firing when the relations that it reads keep
their tuples. -/
theorem Fires.mono
    {rule : Rule} {tuples tuples' : Bytes → Set Tuple} {σ : Bytes → Bytes}
    (h : rule.Fires tuples σ)
    (hreads : ∀ atom ∈ rule.body, tuples atom.name ⊆ tuples' atom.name) :
    rule.Fires tuples' σ :=
  fun atom hatom => hreads atom hatom (h atom hatom)

end Rule

namespace Quiet

/-- `db'` comes from `db` by applications of `rules`. -/
structure Advances (rules : List Rule) (db db' : Database digest) : Prop where
  wellFormed : db'.WellFormed
  signature_eq : db'.signature = db.signature
  grows : ∀ name, db.model name ⊆ db'.model name
  /-- A relation that no rule derives stays as it is. -/
  frame : ∀ name, (∀ rule ∈ rules, rule.head.name ≠ name) → db'.model name = db.model name
  /-- A family of tuples that is closed under the rules is not left. -/
  sound : ∀ tuples : Bytes → Set Tuple, (∀ rule ∈ rules, rule.SatisfiedBy tuples) →
    (∀ name, db.model name ⊆ tuples name) → ∀ name, db'.model name ⊆ tuples name

theorem Advances.refl
    {rules : List Rule} {db : Database digest} (hdb : db.WellFormed) : Advances rules db db where
  wellFormed := hdb
  signature_eq := rfl
  grows := fun _ => subset_rfl
  frame := fun _ _ => rfl
  sound := fun _ _ h => h

theorem Advances.trans
    {rules : List Rule} {db db' db'' : Database digest}
    (h : Advances rules db db') (h' : Advances rules db' db'') : Advances rules db db'' where
  wellFormed := h'.wellFormed
  signature_eq := h'.signature_eq.trans h.signature_eq
  grows := fun name => (h.grows name).trans (h'.grows name)
  frame := fun name hname => (h'.frame name hname).trans (h.frame name hname)
  sound := fun tuples hclosed hbefore => h'.sound tuples hclosed (h.sound tuples hclosed hbefore)

/-- The same rules fit before and after. -/
theorem Advances.admits_iff
    {rules : List Rule} {db db' : Database digest} (hdb : db.WellFormed)
    (h : Advances rules db db') (rule : Rule) : db'.Admits rule ↔ db.Admits rule :=
  ⟨fun hadmits => hadmits.of_signature h.wellFormed hdb h.signature_eq.symm,
    fun hadmits => hadmits.of_signature hdb h.wellFormed h.signature_eq⟩

/-- With more rules there is more that may have happened. -/
theorem Advances.mono
    {rules rules' : List Rule} (hrules : ∀ rule ∈ rules, rule ∈ rules') {db db' : Database digest}
    (h : Advances rules db db') : Advances rules' db db' where
  wellFormed := h.wellFormed
  signature_eq := h.signature_eq
  grows := h.grows
  frame := fun name hname => h.frame name fun rule hrule => hname rule (hrules rule hrule)
  sound := fun tuples hclosed =>
    h.sound tuples fun rule hrule => hclosed rule (hrules rule hrule)

/-- A rule goes on being satisfied while nobody derives what it reads. -/
theorem Advances.satisfiedBy
    {rules : List Rule} {db db' : Database digest} (h : Advances rules db db') {rule : Rule}
    (hreads : ∀ atom ∈ rule.body, ∀ writer ∈ rules, atom.name ≠ writer.head.name)
    (hrule : rule.SatisfiedBy db.model) : rule.SatisfiedBy db'.model := by
  intro σ hfires
  refine h.grows _ (hrule σ (hfires.mono ?_))
  intro atom hatom
  exact (h.frame atom.name fun writer hwriter =>
    (hreads atom hatom writer hwriter).symm).subset

/-! ## One application -/

theorem mem_model_derive
    {db : Database digest} (hdb : db.WellFormed) {rule : Rule} (hbody : rule.body ≠ [])
    {a : Rule.Application digest} (h : derive db rule = .ok a) (name : Bytes) (t : Tuple) :
    t ∈ a.database.model name ↔
      t ∈ db.model name ∨ name = rule.head.name ∧ rule.Yields db.model t := by
  obtain ⟨ts, hgrows, hts⟩ := derive_spec hdb hbody h
  rw [hgrows.mem_model hdb, hts]

theorem advances_of_derive
    {db : Database digest} (hdb : db.WellFormed) {rule : Rule} (hbody : rule.body ≠ [])
    {a : Rule.Application digest} (h : derive db rule = .ok a) :
    Advances [rule] db a.database := by
  have hmodel := mem_model_derive hdb hbody h
  obtain ⟨ts, hgrows, -⟩ := derive_spec hdb hbody h
  constructor
  case wellFormed => exact hgrows.wellFormed hdb
  case signature_eq => exact hgrows.signature_eq hdb
  case grows =>
    intro name t ht
    exact (hmodel name t).mpr (.inl ht)
  case frame =>
    intro name hname
    ext t
    have hne : name ≠ rule.head.name := (hname rule List.mem_cons_self).symm
    simp [hmodel, hne]
  case sound =>
    intro tuples hclosed hbefore name t ht
    rcases (hmodel name t).mp ht with hold | ⟨rfl, σ, hfires, rfl⟩
    · exact hbefore name hold
    · exact hclosed rule List.mem_cons_self σ (hfires.mono fun atom _ => hbefore atom.name)

/-- After its application a rule has all its consequences from before. -/
theorem head_mem_of_derive
    {db : Database digest} (hdb : db.WellFormed) {rule : Rule} (hbody : rule.body ≠ [])
    {a : Rule.Application digest} (h : derive db rule = .ok a)
    {σ : Bytes → Bytes} (hfires : rule.Fires db.model σ) :
    rule.head.ground σ ∈ a.database.model rule.head.name :=
  (mem_model_derive hdb hbody h _ _).mpr (.inr ⟨rfl, σ, hfires, rfl⟩)

theorem tupleCount_derive
    {db : Database digest} (hdb : db.WellFormed) {rule : Rule} (hbody : rule.body ≠ [])
    {a : Rule.Application digest} (h : derive db rule = .ok a) :
    a.database.tupleCount = db.tupleCount + a.added := by
  obtain ⟨projected, hwell, -, hmerge, -⟩ := derive_merges hdb hbody h
  exact Database.tupleCount_merge hdb hwell hmerge

/-- An application that adds nothing changes nothing. -/
theorem model_derive_eq
    {db : Database digest} (hdb : db.WellFormed) {rule : Rule} (hbody : rule.body ≠ [])
    {a : Rule.Application digest} (h : derive db rule = .ok a) (hadded : a.added = 0) :
    a.database.model = db.model := by
  obtain ⟨projected, hwell, -, hmerge, -⟩ := derive_merges hdb hbody h
  have hgrows := Database.growsBy_of_merge hwell hmerge
  rw [hadded] at hmerge
  funext name
  ext t
  rw [hgrows.mem_model hdb]
  constructor
  · rintro (hold | ⟨rfl, ht⟩)
    · exact hold
    · exact Database.mem_model_of_merge_zero hdb hmerge ht
  · exact .inl

/-! ## Passes -/

theorem pass_cons_eq_ok_iff
    {db db' : Database digest} {rule : Rule} {rules : List Rule} {n m : Nat} :
    pass (rule :: rules) db n = .ok (db', m) ↔
      ∃ a, derive db rule = .ok a ∧ pass rules a.database (n + a.added) = .ok (db', m) :=
  bind_eq_ok_iff

theorem advances_of_pass
    {rules : List Rule} (hbodies : ∀ rule ∈ rules, rule.body ≠ [])
    {db db' : Database digest} (hdb : db.WellFormed) {n m : Nat}
    (h : pass rules db n = .ok (db', m)) : Advances rules db db' := by
  induction rules generalizing db n with
  | nil =>
      cases Except.ok.inj h
      exact Advances.refl hdb
  | cons rule rules ih =>
      obtain ⟨a, ha, hrest⟩ := pass_cons_eq_ok_iff.mp h
      obtain ⟨hbody, hbodies⟩ := List.forall_mem_cons.mp hbodies
      have hfirst := advances_of_derive hdb hbody ha
      have hothers := ih hbodies hfirst.wellFormed hrest
      exact (hfirst.mono (by simp)).trans (hothers.mono fun _ => List.mem_cons_of_mem rule)

theorem tupleCount_pass
    {rules : List Rule} (hbodies : ∀ rule ∈ rules, rule.body ≠ [])
    {db db' : Database digest} (hdb : db.WellFormed) {n m : Nat}
    (h : pass rules db n = .ok (db', m)) : db'.tupleCount + n = db.tupleCount + m ∧ n ≤ m := by
  induction rules generalizing db n with
  | nil =>
      cases Except.ok.inj h
      exact ⟨rfl, le_rfl⟩
  | cons rule rules ih =>
      obtain ⟨a, ha, hrest⟩ := pass_cons_eq_ok_iff.mp h
      obtain ⟨hbody, hbodies⟩ := List.forall_mem_cons.mp hbodies
      have hcount := tupleCount_derive hdb hbody ha
      obtain ⟨hcounts, hle⟩ := ih hbodies (advances_of_derive hdb hbody ha).wellFormed hrest
      omega

/-- A pass succeeds when all its rules fit the database it starts from. -/
theorem pass_ok_iff
    {rules : List Rule} (hbodies : ∀ rule ∈ rules, rule.body ≠ [])
    {db : Database digest} (hdb : db.WellFormed) (n : Nat) :
    (∃ result, pass rules db n = .ok result) ↔ ∀ rule ∈ rules, db.Admits rule := by
  induction rules generalizing db n with
  | nil => exact ⟨fun _ => by simp, fun _ => ⟨(db, n), rfl⟩⟩
  | cons rule rules ih =>
      obtain ⟨hbody, hbodies⟩ := List.forall_mem_cons.mp hbodies
      rw [List.forall_mem_cons, ← derive_ok_iff hdb hbody]
      constructor
      · rintro ⟨⟨db', m⟩, h⟩
        obtain ⟨a, ha, hrest⟩ := pass_cons_eq_ok_iff.mp h
        have hfirst := advances_of_derive hdb hbody ha
        refine ⟨⟨a, ha⟩, fun other hother => ?_⟩
        have hadmits := (ih hbodies hfirst.wellFormed _).mp ⟨_, hrest⟩ other hother
        exact (hfirst.admits_iff hdb other).mp hadmits
      · rintro ⟨⟨a, ha⟩, hadmits⟩
        have hfirst := advances_of_derive hdb hbody ha
        obtain ⟨⟨db', m⟩, hrest⟩ := (ih hbodies hfirst.wellFormed (n + a.added)).mpr
          fun other hother => (hfirst.admits_iff hdb other).mpr (hadmits other hother)
        exact ⟨(db', m), pass_cons_eq_ok_iff.mpr ⟨a, ha, hrest⟩⟩

/-- Every rule has its turn in a pass, and what it yields then is there at the end. -/
theorem exists_turn_of_pass
    {rules : List Rule} (hbodies : ∀ rule ∈ rules, rule.body ≠ [])
    {db db' : Database digest} (hdb : db.WellFormed) {n m : Nat}
    (h : pass rules db n = .ok (db', m)) {rule : Rule} (hrule : rule ∈ rules) :
    ∃ turn, Advances rules db turn ∧ Advances rules turn db' ∧
      ∀ σ, rule.Fires turn.model σ → rule.head.ground σ ∈ db'.model rule.head.name := by
  induction rules generalizing db n with
  | nil => simp at hrule
  | cons first rules ih =>
      have hall := advances_of_pass hbodies hdb h
      obtain ⟨a, ha, hrest⟩ := pass_cons_eq_ok_iff.mp h
      obtain ⟨hbody, hbodies⟩ := List.forall_mem_cons.mp hbodies
      have hfirst := advances_of_derive hdb hbody ha
      have hothers := advances_of_pass hbodies hfirst.wellFormed hrest
      rcases List.mem_cons.mp hrule with rfl | hrule
      · refine ⟨db, Advances.refl hdb, hall, ?_⟩
        intro σ hfires
        exact hothers.grows _ (head_mem_of_derive hdb hbody ha hfires)
      · obtain ⟨turn, hbefore, hafter, hturn⟩ := ih hbodies hfirst.wellFormed hrest hrule
        have hmore : ∀ rule ∈ rules, rule ∈ first :: rules := fun _ =>
          List.mem_cons_of_mem first
        exact ⟨turn, (hfirst.mono (by simp)).trans (hbefore.mono hmore), hafter.mono hmore, hturn⟩

/-- A pass that adds nothing changes nothing. -/
theorem model_pass_eq
    {rules : List Rule} (hbodies : ∀ rule ∈ rules, rule.body ≠ [])
    {db db' : Database digest} (hdb : db.WellFormed) {n : Nat}
    (h : pass rules db n = .ok (db', n)) : db'.model = db.model := by
  induction rules generalizing db n with
  | nil =>
      cases Except.ok.inj h
      rfl
  | cons rule rules ih =>
      obtain ⟨a, ha, hrest⟩ := pass_cons_eq_ok_iff.mp h
      obtain ⟨hbody, hbodies⟩ := List.forall_mem_cons.mp hbodies
      have hwell := (advances_of_derive hdb hbody ha).wellFormed
      have hle := (tupleCount_pass hbodies hwell hrest).2
      have hnone : a.added = 0 := by omega
      rw [hnone, Nat.add_zero] at hrest
      rw [ih hbodies hwell hrest, model_derive_eq hdb hbody ha hnone]

/-- A pass that adds nothing ends in a database that satisfies its rules. -/
theorem satisfiedBy_of_idle_pass
    {rules : List Rule} (hbodies : ∀ rule ∈ rules, rule.body ≠ [])
    {db db' : Database digest} (hdb : db.WellFormed)
    (h : pass rules db 0 = .ok (db', 0)) {rule : Rule} (hrule : rule ∈ rules) :
    rule.SatisfiedBy db'.model := by
  obtain ⟨turn, hbefore, -, hturn⟩ := exists_turn_of_pass hbodies hdb h hrule
  intro σ hfires
  rw [model_pass_eq hbodies hdb h] at hfires
  exact hturn σ (hfires.mono fun atom _ => hbefore.grows atom.name)

/-- So does a single pass over rules that do not read what they derive. -/
theorem satisfiedBy_of_pass
    {rules : List Rule} (hbodies : ∀ rule ∈ rules, rule.body ≠ [])
    (hreads : ∀ reader ∈ rules, ∀ atom ∈ reader.body, ∀ writer ∈ rules,
      atom.name ≠ writer.head.name)
    {db db' : Database digest} (hdb : db.WellFormed) {n m : Nat}
    (h : pass rules db n = .ok (db', m)) {rule : Rule} (hrule : rule ∈ rules) :
    rule.SatisfiedBy db'.model := by
  obtain ⟨turn, -, hafter, hturn⟩ := exists_turn_of_pass hbodies hdb h hrule
  intro σ hfires
  refine hturn σ (hfires.mono ?_)
  intro atom hatom
  exact (hafter.frame atom.name fun writer hwriter =>
    (hreads rule hrule atom hatom writer hwriter).symm).subset

end Quiet

end LeastModel
