import LeastModel.Proofs.RuleFaults

/-!
# Checks before evaluation and failures during it

The checks look at a rule in another order, and report other failures, than its
application does. Both come down to the same question, whether the rule fits the
declared relations (`Database.Admits`), so a database passes the checks exactly
when its evaluation meets no failure in a rule.

## Main statement

`Program.checksAgree_of_load`: for a program that can be loaded, the checks pass
if and only if all groups are evaluated; then checking makes no difference to
the outcome, and no rule ever fails.
-/

namespace LeastModel

variable {digest : Digest}

/-! ## What the checks look for -/

/-- Checks one after another pass when all of them pass. -/
theorem check_bind_eq_ok_iff
    {ε β : Type} {x : Except ε Unit} {y : Except ε β} {b : β} :
    (x >>= fun _ => y) = .ok b ↔ x = .ok () ∧ y = .ok b := by
  rw [bind_eq_ok_iff]
  exact ⟨fun ⟨_, hx, hy⟩ => ⟨hx, hy⟩, fun ⟨hx, hy⟩ => ⟨(), hx, hy⟩⟩

namespace Database

theorem checkAtom_eq_ok_iff
    {db : Database digest} {fault : Bytes → Nat → Nat → Fault} {atom : Atom} :
    db.checkAtom fault atom = .ok () ↔ db.Fits atom := by
  rw [checkAtom, bind_eq_ok_iff, Fits]
  refine exists_congr fun r => ?_
  rw [relation_eq_ok_iff]
  refine and_congr_right fun _ => ?_
  by_cases harity : atom.arity = r.arity
  · simp only [harity, if_true, iff_true]
    rfl
  · simp only [harity, if_false, iff_false]
    exact (nomatch ·)

theorem checkBody_eq_ok_iff {db : Database digest} {atoms : List Atom} :
    db.checkBody atoms = .ok () ↔ ∀ atom ∈ atoms, db.Fits atom := by
  induction atoms with
  | nil => simp [checkBody]
  | cons atom atoms ih =>
      rw [checkBody, check_bind_eq_ok_iff, checkAtom_eq_ok_iff, ih, List.forall_mem_cons]

end Database

namespace Rule

theorem checkHead_eq_ok_iff {terms : List Term} :
    checkHead terms = .ok () ↔ ∀ t ∈ terms, t.isConstant = false := by
  induction terms with
  | nil => simp [checkHead]
  | cons t terms ih =>
      rw [List.forall_mem_cons, ← ih, checkHead]
      cases t.isConstant with
      | true => simp
      | false => simp

/-- The variables of the head are bound when none is reported as unbound. -/
theorem unboundVariables_eq_nil_iff (rule : Rule) :
    rule.unboundVariables = [] ↔
      ∀ name ∈ rule.head.identifiers, ∃ atom ∈ rule.body, name ∈ atom.identifiers := by
  simp [unboundVariables, bodyVariables, List.filter_eq_nil_iff]

/-- A rule of which all atoms are plain. -/
def Plain (rule : Rule) : Prop := rule.head.Plain ∧ ∀ atom ∈ rule.body, atom.Plain

theorem Plain.bound_iff {rule : Rule} (h : rule.Plain) :
    rule.Bound ↔
      (∀ t ∈ rule.head.terms, t.isConstant = false) ∧ rule.unboundVariables = [] := by
  have hbody : ∀ name, (∃ atom ∈ rule.body, name ∈ atom.openNames) ↔
      ∃ atom ∈ rule.body, name ∈ atom.identifiers := by
    intro name
    refine exists_congr fun atom => and_congr_right fun hatom => ?_
    rw [(h.2 atom hatom).openNames_eq]
  rw [unboundVariables_eq_nil_iff, ← h.1.openNames_eq, Bound]
  constructor
  · intro hbound
    refine ⟨fun t ht => (hbound t ht).1, fun name hname => ?_⟩
    obtain ⟨t, ht, -, rfl⟩ := (Atom.mem_openNames _ _).mp hname
    exact (hbody _).mp (hbound t ht).2
  · rintro ⟨hopen, hnames⟩ t ht
    refine ⟨hopen t ht, (hbody _).mpr (hnames t.value ?_)⟩
    exact (Atom.mem_openNames _ _).mpr ⟨t, ht, hopen t ht, rfl⟩

end Rule

namespace Database

/-- The checks of a rule pass when the rule fits the database. -/
theorem checkRule_eq_ok_iff {db : Database digest} {rule : Rule} (hplain : rule.Plain) :
    db.checkRule rule = .ok () ↔ db.Admits rule := by
  rw [checkRule, check_bind_eq_ok_iff, check_bind_eq_ok_iff, check_bind_eq_ok_iff,
    checkAtom_eq_ok_iff, Rule.checkHead_eq_ok_iff, checkBody_eq_ok_iff]
  constructor
  · rintro ⟨hhead, hopen, hbody, hunbound⟩
    refine ⟨hhead, hbody, hplain.bound_iff.mpr ⟨hopen, ?_⟩⟩
    split at hunbound
    · assumption
    · exact nomatch hunbound
  · rintro ⟨hhead, hbody, hbound⟩
    obtain ⟨hopen, hunbound⟩ := hplain.bound_iff.mp hbound
    rw [hunbound]
    exact ⟨hhead, hopen, hbody, rfl⟩

theorem validate_eq_ok_iff
    {db : Database digest} {rules : List Rule} (hplain : ∀ rule ∈ rules, rule.Plain) :
    db.validate rules = .ok () ↔ ∀ rule ∈ rules, db.Admits rule := by
  induction rules with
  | nil => simp [validate]
  | cons rule rules ih =>
      obtain ⟨hrule, hrules⟩ := List.forall_mem_cons.mp hplain
      rw [validate, check_bind_eq_ok_iff, mapError_eq_ok_iff, checkRule_eq_ok_iff hrule,
        ih hrules, List.forall_mem_cons]

end Database

/-! ## Runs with and without checks -/

namespace Quiet

theorem saturate_congr
    {options options' : Options} (h : options.maxPasses = options'.maxPasses) (group : Group)
    (room : Nat) (stats : GroupStats) (db : Database digest) :
    saturate options group room stats db = saturate options' group room stats db := by
  have hexhausted : options.exhausted = options'.exhausted := by
    funext passes
    rw [Options.exhausted, Options.exhausted, h]
  induction room generalizing stats db with
  | zero => rw [saturate, saturate, hexhausted]
  | succ room ih =>
      rw [saturate, saturate, hexhausted]
      simp only [ih]

/-- Of the options only the limit on the passes matters to the groups. -/
theorem evaluateGroups_congr
    {options options' : Options} (h : options.maxPasses = options'.maxPasses)
    (groups : List Group) (db : Database digest) :
    evaluateGroups options groups db = evaluateGroups options' groups db := by
  induction groups generalizing db with
  | nil => rfl
  | cons group groups ih =>
      rw [evaluateGroups, evaluateGroups, saturate_congr h]
      simp only [ih]

/-- Checks that pass make no difference. -/
theorem evaluate_congr
    {options options' : Options} (h : options.maxPasses = options'.maxPasses) {p : Program}
    {db : Database digest} (hload : Database.load p = .ok db)
    (hvalid : db.validate p.rules = .ok ()) :
    (evaluate options p : Except Fault (Result digest)) = evaluate options' p := by
  simp only [evaluate_eq, hload, ok_bind, hvalid, ite_self, evaluateGroups_congr h]

theorem inQuery_of_answerQueries
    {db : Database digest} {queries : List Atom} {fault : Fault}
    (h : answerQueries db queries = .error fault) :
    ∃ query ∈ queries, ∃ cause, fault = .inQuery query cause := by
  induction queries with
  | nil => exact nomatch h
  | cons query queries ih =>
      rcases bind_eq_error_iff.mp h with h | ⟨relation, -, h⟩
      · obtain ⟨cause, -, rfl⟩ := exists_of_mapError h
        exact ⟨query, List.mem_cons_self, cause, rfl⟩
      · rcases bind_eq_error_iff.mp h with h | ⟨more, -, h⟩
        · obtain ⟨other, hother, hcause⟩ := ih h
          exact ⟨other, List.mem_cons_of_mem query hother, hcause⟩
        · exact nomatch h

/-- The checks pass when all groups of the plan are evaluated. -/
theorem validate_iff_evaluateGroups
    {p : Program} (hplain : ∀ rule ∈ p.rules, rule.Plain)
    (hbodies : ∀ rule ∈ p.rules, rule.body ≠ []) {db : Database digest} (hdb : db.WellFormed)
    {options : Options} (hoptions : options.maxPasses ≤ 0) :
    db.validate p.rules = .ok () ↔
      ∃ result, evaluateGroups options (Plan.ofRules p.rules).groups db = .ok result := by
  rw [Database.validate_eq_ok_iff hplain,
    evaluateGroups_ok_iff hoptions (Plan.forall_mem_groups.mpr hbodies) hdb, Plan.forall_mem_groups]

/-- The three places where the evaluation of a loaded program can fail. -/
theorem evaluate_error_cases
    {options : Options} {p : Program} {db : Database digest} (hload : Database.load p = .ok db)
    {fault : Fault} (h : (evaluate options p : Except Fault (Result digest)) = .error fault) :
    db.validate p.rules = .error fault ∨
      evaluateGroups options (Plan.ofRules p.rules).groups db = .error fault ∨
        ∃ query ∈ p.queries, ∃ cause, fault = .inQuery query cause := by
  rw [evaluate_eq, hload, ok_bind] at h
  rcases bind_eq_error_iff.mp h with h | ⟨_, -, h⟩
  · split at h
    · exact .inl h
    · cases h
  · rcases bind_eq_error_iff.mp h with h | ⟨⟨counts, last⟩, -, h⟩
    · exact .inr (.inl h)
    · rcases bind_eq_error_iff.mp h with h | ⟨answers, -, h⟩
      · exact .inr (.inr (inQuery_of_answerQueries h))
      · cases h

/-- A run without checks fails where its groups fail. -/
theorem evaluate_eq_error_of_groups
    {options : Options} (hvalidate : options.validateRules = false) {p : Program}
    {db : Database digest} (hload : Database.load p = .ok db) {fault : Fault}
    (h : evaluateGroups options (Plan.ofRules p.rules).groups db = .error fault) :
    (evaluate options p : Except Fault (Result digest)) = .error fault := by
  simp only [evaluate_eq, hload, ok_bind, hvalidate, Bool.false_eq_true, if_false, h]
  rfl

/-- In a program that passes the checks no rule fails, whatever the options. -/
theorem evaluate_ne_inRule
    {p : Program} (hplain : ∀ rule ∈ p.rules, rule.Plain)
    (hbodies : ∀ rule ∈ p.rules, rule.body ≠ []) {db : Database digest}
    (hload : Database.load p = .ok db) (hvalid : db.validate p.rules = .ok ())
    (options : Options) (rule : Rule) (cause : Fault) :
    (evaluate options p : Except Fault (Result digest)) ≠ .error (.inRule rule cause) := by
  intro h
  have hdb := (Database.load_spec hload).1
  have hadmits := Plan.forall_mem_groups.mpr ((Database.validate_eq_ok_iff hplain).mp hvalid)
  rcases evaluate_error_cases hload h with h | h | ⟨query, -, cause', h⟩
  · exact nomatch h.symm.trans hvalid
  · exact evaluateGroups_ne_inRule (Plan.forall_mem_groups.mpr hbodies) hdb hadmits rule cause h
  · exact nomatch h

end Quiet

namespace Program

/-- The checks of the rules and the runs of a loaded program agree. -/
structure ChecksAgree (p : Program) (db : Database digest) (options : Options) : Prop where
  /-- The checks pass when a run without checks evaluates every group. -/
  groups : db.validate p.rules = .ok () ↔
    ∃ counts last, ∀ o, (evaluateGroups { options with validateRules := false }
      (Plan.ofRules p.rules).groups db).outcome o = .ok (counts, last)
  /-- The checks pass when a run without checks meets no failure in a rule. -/
  rules : db.validate p.rules = .ok () ↔
    ∀ rule cause, (p.evaluate { options with validateRules := false } :
      Except Fault (Result digest)) ≠ .error (.inRule rule cause)
  /-- After checks that pass, a run ends as it does without checks. -/
  same : db.validate p.rules = .ok () →
    (p.evaluate { options with validateRules := true } : Except Fault (Result digest)) =
      p.evaluate { options with validateRules := false }
  /-- All that can fail then is a query. -/
  queries : db.validate p.rules = .ok () → ∀ fault,
    (p.evaluate { options with validateRules := true } : Except Fault (Result digest)) =
      .error fault → ∃ query ∈ p.queries, ∃ cause, fault = .inQuery query cause
  /-- No run, whatever its options and whoever watches it, fails in a rule. -/
  never : db.validate p.rules = .ok () → ∀ (options' : Options) o rule cause,
    (p.evaluateObserved options' : Run (Result digest)).outcome o ≠ .error (.inRule rule cause)

/-- Checking the rules before evaluation tells exactly whether one of them would
fail during it. -/
theorem checksAgree_of_load
    {p : Program} (hplain : ∀ rule ∈ p.rules, rule.Plain)
    (hbodies : ∀ rule ∈ p.rules, rule.body ≠ []) {db : Database digest}
    (hload : Database.load p = .ok db) {options : Options} (hoptions : options.maxPasses ≤ 0) :
    p.ChecksAgree db options := by
  have hdb := (Database.load_spec hload).1
  have hchecked : ({ options with validateRules := true } : Options).maxPasses ≤ 0 := hoptions
  have hunchecked : ({ options with validateRules := false } : Options).maxPasses ≤ 0 := hoptions
  have hgroups := Quiet.validate_iff_evaluateGroups hplain hbodies hdb hunchecked
  constructor
  case groups =>
    rw [hgroups]
    constructor
    · rintro ⟨⟨counts, last⟩, h⟩
      exact ⟨counts, last, fun o => (evaluateGroups_yields _ _ db o).trans h⟩
    · rintro ⟨counts, last, h⟩
      exact ⟨(counts, last), (evaluateGroups_yields _ _ db (.new false)).symm.trans (h _)⟩
  case rules =>
    constructor
    · intro hvalid rule cause
      rw [evaluate_eq_quiet]
      exact Quiet.evaluate_ne_inRule hplain hbodies hload hvalid _ rule cause
    · intro hnone
      rw [hgroups]
      cases h : Quiet.evaluateGroups { options with validateRules := false }
          (Plan.ofRules p.rules).groups db with
      | ok result => exact ⟨result, rfl⟩
      | error fault =>
          obtain ⟨rule, -, cause, rfl⟩ :=
            Quiet.arisesIn_of_evaluateGroups hunchecked (Plan.forall_mem_groups.mpr hbodies) hdb h
          refine absurd ?_ (hnone rule cause)
          rw [evaluate_eq_quiet]
          exact Quiet.evaluate_eq_error_of_groups rfl hload h
  case same =>
    intro hvalid
    rw [evaluate_eq_quiet, evaluate_eq_quiet]
    refine Quiet.evaluate_congr ?_ hload hvalid
    rfl
  case queries =>
    intro hvalid fault h
    rw [evaluate_eq_quiet] at h
    rcases Quiet.evaluate_error_cases hload h with h | h | h
    · exact nomatch h.symm.trans hvalid
    · obtain ⟨result, hresult⟩ :=
        (Quiet.validate_iff_evaluateGroups hplain hbodies hdb hchecked).mp hvalid
      exact nomatch h.symm.trans hresult
    · exact h
  case never =>
    intro hvalid options' o rule cause
    rw [outcome_evaluateObserved]
    exact Quiet.evaluate_ne_inRule hplain hbodies hload hvalid options' rule cause

/-- A program without facts, with a rule whose head has a variable of its own. -/
def unboundHead : Program where
  schemes := [⟨"p", [.identifier "a"]⟩, ⟨"q", [.identifier "a", .identifier "b"]⟩]
  facts := []
  rules := [⟨⟨"q", [.identifier "x", .identifier "x"]⟩, [⟨"p", [.identifier "x"]⟩]⟩,
    ⟨⟨"q", [.identifier "x", .identifier "y"]⟩, [⟨"p", [.identifier "x"]⟩]⟩]
  queries := []

theorem checksAgree_unboundHead :
    (∀ rule ∈ unboundHead.rules, rule.Plain) ∧ (∀ rule ∈ unboundHead.rules, rule.body ≠ []) ∧
      ({} : Options).maxPasses ≤ 0 ∧
      ∃ db : Database Xxh64.digest, Database.load unboundHead = .ok db ∧
        db.validate unboundHead.rules ≠ .ok () ∧ unboundHead.ChecksAgree db {} := by
  have hplain : ∀ rule ∈ unboundHead.rules, rule.Plain := by
    unfold Rule.Plain Atom.Plain
    decide
  have hbodies : ∀ rule ∈ unboundHead.rules, rule.body ≠ [] := by decide
  have hload : (Database.load unboundHead : Except Fault (Database Xxh64.digest)) =
      .ok ((Database.empty.putNew "p" (.empty "p" ["a"])).putNew "q" (.empty "q" ["a", "b"])) :=
    rfl
  refine ⟨hplain, hbodies, le_rfl, _, hload, ?_, checksAgree_of_load hplain hbodies hload le_rfl⟩
  decide +kernel

end Program

end LeastModel
