import LeastModel.Proofs.ImmediateConsequence
import LeastModel.Proofs.MinimalModel
import LeastModel.Proofs.PassLimit

/-!
# What an evaluation adds to a database

An application of a rule, a pass, a group and a whole run all do the same to a
database: they put a counted number of tuples into relations that their rules
derive, and build these tuples from values that are there (`Database.Gains`).
This is shown for one application, whatever the rule, and is kept by going on.

## Main statement

`Program.evaluate_inventsNothing`: whatever the options, the values of a result
are constants of the facts.
-/

namespace LeastModel

variable {digest : Digest}

namespace Database

/-! ## Values of a database -/

/-- All values are among the given ones. -/
def Over (values : List Bytes) (db : Database digest) : Prop :=
  ∀ name, ∀ t ∈ db.model name, ∀ v ∈ t, v ∈ values

theorem Over.of_load {p : Program} {db : Database digest} (h : load p = .ok db) :
    db.Over p.domain :=
  fun _ _ ht _ hv => mem_domain_of_load h ht hv

/-- Whatever a query finds is made of values of the database. -/
theorem Over.of_query {values : List Bytes} {db : Database digest} (h : db.Over values)
    (hdb : db.WellFormed) {atom : Atom} {s : Relation digest} (hs : db.query atom = .ok s) :
    ∀ t ∈ s.tuples, ∀ v ∈ t, v ∈ values := by
  obtain ⟨hwell, hschema, hholds⟩ := query_spec hdb hs
  intro t ht v hv
  obtain ⟨σ, rfl, hσ⟩ := (hwell.mem_iff_holds (hschema ▸ atom.nodup_openNames) t).mp ht
  obtain ⟨name, hname, rfl⟩ := List.mem_map.mp hv
  exact h atom.name _ ((hholds σ).mp hσ) _ (Atom.mem_ground (hschema ▸ hname) σ)

/-! ## Gains -/

/-- `db'` is `db` with `n` more tuples. They are in relations that the rules
derive, and made of values of `db`. -/
structure Gains (db : Database digest) (rules : List Rule) (n : Nat)
    (db' : Database digest) : Prop where
  wellFormed : db'.WellFormed
  signature_eq : db'.signature = db.signature
  frame : ∀ name, (∀ rule ∈ rules, rule.head.name ≠ name) → db'.find? name = db.find? name
  tupleCount_eq : db'.tupleCount = db.tupleCount + n
  over_of_over : ∀ values, db.Over values → db'.Over values

namespace Gains

variable {db db' db'' : Database digest} {rules rules' : List Rule} {n m : Nat}

theorem refl (hdb : db.WellFormed) : db.Gains rules 0 db where
  wellFormed := hdb
  signature_eq := rfl
  frame := fun _ _ => rfl
  tupleCount_eq := rfl
  over_of_over := fun _ h => h

theorem trans (h : db.Gains rules n db') (h' : db'.Gains rules m db'') :
    db.Gains rules (n + m) db'' where
  wellFormed := h'.wellFormed
  signature_eq := h'.signature_eq.trans h.signature_eq
  frame := fun name hname => (h'.frame name hname).trans (h.frame name hname)
  tupleCount_eq := by rw [h'.tupleCount_eq, h.tupleCount_eq, Nat.add_assoc]
  over_of_over := fun values hover => h'.over_of_over values (h.over_of_over values hover)

theorem mono (hrules : ∀ rule ∈ rules, rule ∈ rules') (h : db.Gains rules n db') :
    db.Gains rules' n db' where
  wellFormed := h.wellFormed
  signature_eq := h.signature_eq
  frame := fun name hname => h.frame name fun rule hrule => hname rule (hrules rule hrule)
  tupleCount_eq := h.tupleCount_eq
  over_of_over := h.over_of_over

end Gains

end Database

/-! ## Applications, passes and groups -/

namespace Quiet

theorem gains_of_derive {db : Database digest} (hdb : db.WellFormed) {rule : Rule}
    {a : Rule.Application digest} (h : derive db rule = .ok a) :
    db.Gains [rule] a.added a.database := by
  by_cases hbody : rule.body = []
  · rw [derive_of_body_nil hbody] at h
    cases Except.ok.inj h
    exact .refl hdb
  · have hadvances := advances_of_derive hdb hbody h
    have hadmits := (derive_ok_iff hdb hbody).mp ⟨a, h⟩
    obtain ⟨new, htakes, -⟩ := (isConsequenceStep_of_derive hdb hbody h).database
    constructor
    case wellFormed => exact hadvances.wellFormed
    case signature_eq => exact hadvances.signature_eq
    case frame =>
      intro name hname
      exact htakes.others name (hname rule List.mem_cons_self).symm
    case tupleCount_eq => exact tupleCount_derive hdb hbody h
    case over_of_over =>
      -- The rule holds in the family of all tuples over the values, so it stays within them.
      intro values hover
      apply hadvances.sound (fun _ => {t | ∀ v ∈ t, v ∈ values})
      · intro other hother
        rw [List.mem_singleton.mp hother]
        exact hadmits.bound.satisfiedBy_over values
      · exact hover

/-- No more tuples are new than have been derived. -/
theorem added_le_of_derive {db : Database digest} (hdb : db.WellFormed) {rule : Rule}
    {a : Rule.Application digest} (h : derive db rule = .ok a) : a.added ≤ a.derived := by
  by_cases hbody : rule.body = []
  · rw [derive_of_body_nil hbody] at h
    cases Except.ok.inj h
    exact le_rfl
  · have hstep := isConsequenceStep_of_derive hdb hbody h
    rw [hstep.added_eq, hstep.derived_eq]
    exact Set.ncard_le_ncard Set.sdiff_subset hstep.finite

theorem gains_of_pass {rules : List Rule} {db db' : Database digest} (hdb : db.WellFormed)
    {n m : Nat} (h : pass rules db n = .ok (db', m)) :
    ∃ added, m = n + added ∧ db.Gains rules added db' := by
  induction rules generalizing db n with
  | nil =>
      cases Except.ok.inj h
      exact ⟨0, rfl, .refl hdb⟩
  | cons rule rules ih =>
      obtain ⟨a, ha, hrest⟩ := pass_cons_eq_ok_iff.mp h
      have hfirst := gains_of_derive hdb ha
      obtain ⟨added, rfl, hothers⟩ := ih hfirst.wellFormed hrest
      refine ⟨a.added + added, Nat.add_assoc _ _ _, ?_⟩
      exact (hfirst.mono (by simp)).trans (hothers.mono fun _ => List.mem_cons_of_mem rule)

theorem exists_passes_of_saturate
    {options : Options} {group : Group} {room : Nat} {stats stats' : GroupStats}
    {db db' : Database digest} (h : saturate options group room stats db = .ok (stats', db')) :
    ∃ adds, group.Passes options db adds db' ∧ stats' = stats.after adds := by
  induction room using Nat.strongRecOn generalizing stats db with
  | _ room ih =>
      obtain ⟨next, added, hpass, hlast⟩ := saturate_cases h
      have hyields : (group.pass options db).Yields (.ok (next, added)) :=
        Group.yields_pass_iff.mpr hpass
      rcases hlast with ⟨rfl, hstats, -⟩ | ⟨-, fewer, rfl, hrest⟩
      · exact ⟨[added], .cons hyields (.nil _), hstats⟩
      · obtain ⟨adds, hpasses, hstats⟩ := ih fewer (Nat.lt_succ_self fewer) hrest
        exact ⟨added :: adds, .cons hyields hpasses, by rw [hstats, ← GroupStats.after_cons]⟩

end Quiet

namespace Group

theorem Passes.gains {options : Options} {group : Group} {db last : Database digest}
    {adds : List Nat} (h : group.Passes options db adds last) (hdb : db.WellFormed) :
    db.Gains group.rules (Number.total adds) last := by
  induction h with
  | nil db => exact .refl hdb
  | cons hpass _ ih =>
      obtain ⟨added, hadded, hnext⟩ := Quiet.gains_of_pass hdb (yields_pass_iff.mp hpass)
      rw [Nat.zero_add] at hadded
      subst hadded
      exact hnext.trans (ih hnext.wellFormed)

/-- Groups are evaluated one after another, and each counts what it adds. -/
inductive Tallied (options : Options) :
    List Group → Database digest → List GroupStats → Database digest → Prop
  | nil (db : Database digest) : Tallied options [] db [] db
  | cons {group : Group} {groups : List Group} {db next last : Database digest}
      {stats : GroupStats} {counts : List GroupStats}
      (hrun : (group.evaluate options db).Yields (.ok (stats, next)))
      (hindices : stats.indices = group.indices) (hrecursive : stats.recursive = group.recursive)
      (hgains : db.Gains group.rules stats.added next)
      (hrest : Tallied options groups next counts last) :
      Tallied options (group :: groups) db (stats :: counts) last

theorem Tallied.gains {options : Options} {groups : List Group} {db last : Database digest}
    {counts : List GroupStats} (h : Tallied options groups db counts last) (hdb : db.WellFormed) :
    db.Gains (Quiet.rulesOf groups) (Number.total (counts.map (·.added))) last := by
  induction h with
  | nil db => exact .refl hdb
  | cons hrun hindices hrecursive hgains hrest ih =>
      rw [Quiet.rulesOf, List.flatMap_cons]
      exact (hgains.mono fun _ => List.mem_append_left _).trans
        ((ih hgains.wellFormed).mono fun _ => List.mem_append_right _)

end Group

theorem Quiet.tallied_of_evaluateGroups
    {options : Options} {groups : List Group} {db last : Database digest} (hdb : db.WellFormed)
    {counts : List GroupStats} (h : evaluateGroups options groups db = .ok (counts, last)) :
    Group.Tallied options groups db counts last := by
  induction groups generalizing db counts with
  | nil =>
      cases Except.ok.inj h
      exact .nil _
  | cons group groups ih =>
      obtain ⟨stats, next, more, hsaturate, hmore, rfl⟩ := evaluateGroups_cons_eq_ok_iff.mp h
      obtain ⟨adds, hpasses, hstats⟩ := exists_passes_of_saturate hsaturate
      have hgains := hpasses.gains hdb
      rw [← GroupStats.added_after_initial group adds, ← hstats] at hgains
      have hrun := group.evaluate_yields options db
      rw [hsaturate] at hrun
      exact .cons hrun (by rw [hstats]; rfl) (by rw [hstats]; rfl) hgains
        (ih hgains.wellFormed hmore)

/-! ## Answers -/

theorem Database.name_of_query {db : Database digest} (hdb : db.WellFormed) {atom : Atom}
    {s : Relation digest} (h : db.query atom = .ok s) : s.name = atom.name := by
  obtain ⟨r, hr, hinstances⟩ := query_eq_ok_iff.mp h
  obtain ⟨s', hs', hname, -⟩ :=
    Relation.instances_spec (hdb.found hr) (Relation.arity_of_instances hinstances)
  cases hinstances.symm.trans hs'
  exact hname

/-- The answer is made of its query and of the given values. -/
structure Answer.MadeOf (values : List Bytes) (answer : Answer digest) : Prop where
  wellFormed : answer.relation.WellFormed
  name : answer.relation.name = answer.query.name
  schema : answer.relation.schema = answer.query.openNames
  tuples : ∀ t ∈ answer.relation.tuples, ∀ v ∈ t, v ∈ values

theorem Quiet.madeOf_of_answerQueries
    {db : Database digest} (hdb : db.WellFormed) {values : List Bytes} (hover : db.Over values)
    {queries : List Atom} {answers : List (Answer digest)}
    (h : answerQueries db queries = .ok answers) :
    answers.map (·.query) = queries ∧ ∀ a ∈ answers, a.MadeOf values := by
  induction queries generalizing answers with
  | nil =>
      cases Except.ok.inj h
      simp
  | cons query queries ih =>
      obtain ⟨relation, more, hrelation, hmore, rfl⟩ := answerQueries_cons_eq_ok_iff.mp h
      obtain ⟨hwell, hschema, -⟩ := Database.query_spec hdb hrelation
      have hfirst : (⟨query, relation⟩ : Answer digest).MadeOf values :=
        ⟨hwell, Database.name_of_query hdb hrelation, hschema, hover.of_query hdb hrelation⟩
      obtain ⟨hqueries, hothers⟩ := ih hmore
      exact ⟨congrArg (query :: ·) hqueries, List.forall_mem_cons.mpr ⟨hfirst, hothers⟩⟩

/-! ## Results -/

namespace Program

/-- A result is made of the queries, in order, and of the constants of the facts. -/
theorem madeOf_of_evaluate
    {options : Options} {p : Program} {result : Result digest}
    (h : Quiet.evaluate options p = .ok result) :
    result.database.WellFormed ∧ result.database.Over p.domain ∧
      result.answers.map (·.query) = p.queries ∧ ∀ a ∈ result.answers, a.MadeOf p.domain := by
  obtain ⟨db, counts, last, answers, hload, hgroups, hanswers, rfl⟩ := Quiet.exists_of_evaluate h
  have hdb := (Database.load_spec hload).1
  have hgains := (Quiet.tallied_of_evaluateGroups hdb hgroups).gains hdb
  have hover := hgains.over_of_over p.domain (.of_load hload)
  exact ⟨hgains.wellFormed, hover,
    Quiet.madeOf_of_answerQueries hgains.wellFormed hover hanswers⟩

/-- Every value of a result is a constant of a fact. The domain lists these
constants, ascending and each once. -/
structure InventsNothing (p : Program) (result : Result digest) : Prop where
  domain_ascending : p.domain.Pairwise (· < ·)
  mem_domain : ∀ v, v ∈ p.domain ↔ ∃ fact ∈ p.facts, Term.constant v ∈ fact.terms
  relations : ∀ r ∈ result.database.relations, ∀ t ∈ r.tuples, ∀ v ∈ t, v ∈ p.domain
  answers : ∀ a ∈ result.answers, ∀ t ∈ a.relation.tuples, ∀ v ∈ t, v ∈ p.domain
  /-- A constant that no fact has is nowhere, whichever rules and queries have it. -/
  absent : ∀ v, (∀ fact ∈ p.facts, Term.constant v ∉ fact.terms) →
    (∀ r ∈ result.database.relations, ∀ t ∈ r.tuples, v ∉ t) ∧
      ∀ a ∈ result.answers, ∀ t ∈ a.relation.tuples, v ∉ t

/-- An evaluation that succeeds invents no values, with any options. -/
theorem evaluate_inventsNothing {options : Options} {p : Program} {result : Result digest}
    (h : p.evaluate options = .ok result) : p.InventsNothing result := by
  rw [evaluate_eq_quiet] at h
  obtain ⟨hwell, hover, -, hmade⟩ := madeOf_of_evaluate h
  have hrelations : ∀ r ∈ result.database.relations, ∀ t ∈ r.tuples, ∀ v ∈ t, v ∈ p.domain :=
    fun r hr t ht => hover r.name t ⟨r, hwell.mem_relations_iff.mp hr, ht⟩
  have hanswers : ∀ a ∈ result.answers, ∀ t ∈ a.relation.tuples, ∀ v ∈ t, v ∈ p.domain :=
    fun a ha => (hmade a ha).tuples
  refine ⟨p.domain_ascending, p.mem_domain, hrelations, hanswers, ?_⟩
  intro v habsent
  have hnot : v ∉ p.domain := by
    rw [p.mem_domain]
    rintro ⟨fact, hfact, hterm⟩
    exact habsent fact hfact hterm
  exact ⟨fun r hr t ht hv => hnot (hrelations r hr t ht v hv),
    fun a ha t ht hv => hnot (hanswers a ha t ht v hv)⟩

/-- Rules and queries with a constant `9` that no fact has, and a rule without a body. -/
def foreignConstants : Program where
  schemes := [⟨"p", [.identifier "a", .identifier "b"]⟩, ⟨"q", [.identifier "a"]⟩, ⟨"flag", []⟩]
  facts := [⟨"p", [.constant "1", .constant "2"]⟩, ⟨"p", [.constant "2", .constant "2"]⟩]
  rules := [⟨⟨"flag", []⟩, []⟩,
    ⟨⟨"q", [.identifier "x"]⟩, [⟨"p", [.identifier "x", .constant "2"]⟩]⟩,
    ⟨⟨"p", [.identifier "y", .identifier "x"]⟩,
      [⟨"p", [.constant "9", .identifier "y"]⟩, ⟨"p", [.identifier "x", .identifier "x"]⟩]⟩]
  queries := [⟨"q", [.identifier "x"]⟩, ⟨"p", [.constant "9", .identifier "x"]⟩,
    ⟨"p", [.identifier "x", .identifier "x"]⟩]

theorem evaluate_inventsNothing_foreignConstants :
    ∃ result : Result Xxh64.digest,
      foreignConstants.evaluate { maxPasses := 1, validateRules := false } = .ok result ∧
        result.answers.map (·.relation.tuples) =
          ([[["1"], ["2"]], [], [["2"]]] : List (List Tuple)) ∧
        foreignConstants.InventsNothing result := by
  have hrun : (foreignConstants.evaluate { maxPasses := 1, validateRules := false } :
      Except Fault (Result Xxh64.digest)).toOption.map
        (fun result => result.answers.map (·.relation.tuples)) =
      some ([[["1"], ["2"]], [], [["2"]]] : List (List Tuple)) := by
    decide +kernel
  obtain ⟨result, hresult, htuples⟩ := exists_ok_of_map_toOption hrun
  exact ⟨result, hresult, htuples, evaluate_inventsNothing hresult⟩

end Program

end LeastModel
