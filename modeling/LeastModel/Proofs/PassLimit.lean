import LeastModel.Proofs.Loading
import LeastModel.Proofs.PassCounts

/-!
# Runs with a limit on the passes

Without a limit every group is passed over to its end, one after another
(`InTurn`). A limit is looked at before each pass, so it makes no difference to
a group that needs no more passes than it allows, and stops any other group
after as many passes as it allows (`StopsAfter`).

## Main statement

`Program.exists_passCounts`: the run without a limit comes to an end, and the
numbers of its passes tell how every run with a limit ends.
-/

namespace LeastModel

variable {digest : Digest}

theorem GroupStats.after_cons (stats : GroupStats) (added : Nat) (adds : List Nat) :
    stats.after (added :: adds) = (stats.after [added]).after adds := by
  simp only [after, List.length_cons, List.length_nil, Number.total_cons, Number.total_nil]
  congr 1 <;> omega

@[simp] theorem GroupStats.passes_after_initial (group : Group) (adds : List Nat) :
    ((initial group).after adds).passes = adds.length :=
  Nat.zero_add _

@[simp] theorem GroupStats.added_after_initial (group : Group) (adds : List Nat) :
    ((initial group).after adds).added = Number.total adds :=
  Nat.zero_add _

theorem Options.exhausted_eq_false {options : Options} (h : options.maxPasses ≤ 0) (passes : Nat) :
    options.exhausted passes = false := by
  simp [exhausted, h]

theorem Options.exhausted_eq {options : Options} {m : Nat} (hm : 1 ≤ m)
    (h : options.maxPasses = m) (passes : Nat) :
    options.exhausted passes = decide (m ≤ passes) := by
  simp [exhausted, h]
  omega

namespace Group

/-! ## One group, step by step -/

section Steps

variable {options : Options} {group : Group} {room : Nat} {stats : GroupStats}
  {db next : Database digest} {added : Nat}

theorem saturate_exhausted (h : options.exhausted stats.passes = true) (o : Observer) :
    ((group.saturate options room stats db).run o).1 =
      (stats, .error (.passLimit group.indices stats.passes)) := by
  rw [saturate, if_pos h]
  rfl

theorem saturate_last (hopen : options.exhausted stats.passes = false)
    (hpass : (group.pass options db).Yields (.ok (next, added)))
    (hlast : added = 0 ∨ group.recursive = false) (o : Observer) :
    ((group.saturate options room stats db).run o).1 = (stats.after [added], .ok next) := by
  rw [saturate, if_neg (by simp [hopen])]
  refine (fst_run_bind (hpass o)).trans ?_
  have hend : added = 0 ∨ (!group.recursive) = true := by simpa using hlast
  simp only [hend, if_true]
  rfl

theorem saturate_next (hopen : options.exhausted stats.passes = false)
    (hpass : (group.pass options db).Yields (.ok (next, added)))
    (hrecursive : group.recursive = true) (hadded : 0 < added)
    {r : GroupStats × Except Fault (Database digest)}
    (hrest : ∀ o, ((group.saturate options room (stats.after [added]) next).run o).1 = r)
    (o : Observer) : ((group.saturate options (room + 1) stats db).run o).1 = r := by
  rw [saturate, if_neg (by simp [hopen])]
  refine (fst_run_bind (hpass o)).trans ?_
  have hmore : ¬(added = 0 ∨ (!group.recursive) = true) := by
    simp [hrecursive, Nat.ne_of_gt hadded]
  simp only [hmore, if_false]
  exact hrest _

end Steps

/-! ## One group to its end or to the limit -/

section Runs

variable {options : Options} {group : Group} {room : Nat} {stats : GroupStats}
  {db finish : Database digest} {adds : List Nat}

theorem Ends.exists_room {added : Nat} (h : group.Ends adds)
    (hroom : (added :: adds).length ≤ room + 1) :
    ∃ fewer, room = fewer + 1 ∧ adds.length ≤ fewer + 1 := by
  have hpos := h.length_pos
  rw [List.length_cons] at hroom
  exact ⟨room - 1, by omega, by omega⟩

/-- A group is passed over to its end where the limit allows all its passes. -/
theorem Passes.saturate_eq (h : group.Passes options db adds finish) (hends : group.Ends adds)
    (hroom : adds.length ≤ room + 1)
    (hopen : ∀ k < adds.length, options.exhausted (stats.passes + k) = false) (o : Observer) :
    ((group.saturate options room stats db).run o).1 = (stats.after adds, .ok finish) := by
  induction h generalizing room stats o with
  | nil db => exact absurd hends not_ends_nil
  | @cons db next finish added adds hpass hrest ih =>
      have hnow : options.exhausted stats.passes = false := hopen 0 (by simp)
      rcases hends.cases with ⟨rfl, hlast⟩ | ⟨hrecursive, hadded, hends⟩
      · cases hrest
        exact saturate_last hnow hpass hlast o
      · obtain ⟨fewer, rfl, hfewer⟩ := hends.exists_room hroom
        rw [GroupStats.after_cons]
        apply saturate_next hnow hpass hrecursive hadded
        apply ih hends hfewer
        intro k hk
        have hlater := hopen (k + 1) (by simpa using hk)
        rwa [← Nat.add_assoc, Nat.add_right_comm] at hlater

/-- A group is stopped after as many passes as the limit allows, if it needs more. -/
theorem Passes.saturate_eq_error (h : group.Passes options db adds finish)
    (hends : group.Ends adds) (hroom : adds.length ≤ room + 1) {m : Nat} (hm : m < adds.length)
    (hopen : ∀ k, options.exhausted k = decide (stats.passes + m ≤ k)) :
    ∃ reached, group.Passes options db (adds.take m) reached ∧ ∀ o,
      ((group.saturate options room stats db).run o).1 =
        (stats.after (adds.take m), .error (.passLimit group.indices (stats.passes + m))) := by
  -- The induction is on the passes without a limit; `m` is what is left of the limit.
  induction h generalizing room stats m with
  | nil db => exact absurd hm (Nat.not_lt_zero m)
  | @cons db next finish added adds hpass hrest ih =>
      cases m with
      | zero =>
          refine ⟨db, .nil db, fun o => ?_⟩
          exact saturate_exhausted (by simp [hopen]) o
      | succ m =>
          have hlength : m < adds.length := by simpa using hm
          rcases hends.cases with ⟨rfl, -⟩ | ⟨hrecursive, hadded, hends⟩
          · exact absurd hlength (Nat.not_lt_zero m)
          · obtain ⟨fewer, rfl, hfewer⟩ := hends.exists_room hroom
            have hnow : options.exhausted stats.passes = false := by simp [hopen]
            have hpasses : (stats.after [added]).passes + m = stats.passes + (m + 1) := by
              simp only [GroupStats.after, List.length_singleton]
              omega
            have hlimit : ∀ k, options.exhausted k =
                decide ((stats.after [added]).passes + m ≤ k) := by rwa [hpasses]
            obtain ⟨reached, hreached, hstop⟩ := ih hends hfewer hlength hlimit
            rw [hpasses] at hstop
            refine ⟨reached, .cons hpass hreached, fun o => ?_⟩
            rw [List.take_succ_cons, GroupStats.after_cons]
            exact saturate_next hnow hpass hrecursive hadded hstop o

end Runs

/-! ## All groups -/

/-- Groups are passed over one after another, each to its end. -/
inductive InTurn (options : Options) :
    List Group → Database digest → List GroupStats → Database digest → Prop
  | nil (db : Database digest) : InTurn options [] db [] db
  | cons {group : Group} {groups : List Group} {db next last : Database digest} {adds : List Nat}
      {counts : List GroupStats} (hpasses : group.Passes options db adds next)
      (hends : group.Ends adds) (hrest : InTurn options groups next counts last) :
      InTurn options (group :: groups) db ((GroupStats.initial group).after adds :: counts) last

/-- Of groups that are evaluated in turn, the one with the given indices is
stopped, after exactly `m` passes. -/
inductive StopsAfter (options : Options) (indices : List Nat) (m : Nat) :
    List Group → Database digest → Prop
  | here {group : Group} {groups : List Group} {db reached : Database digest} {adds : List Nat}
      (hindices : group.indices = indices) (hpasses : group.Passes options db adds reached)
      (hlength : adds.length = m)
      (hstop : ∀ o, ((group.saturate options db.capacity (.initial group) db).run o).1 =
        ((GroupStats.initial group).after adds, .error (.passLimit group.indices m))) :
      StopsAfter options indices m (group :: groups) db
  | later {group : Group} {groups : List Group} {db next : Database digest} {stats : GroupStats}
      (hfirst : (group.evaluate options db).Yields (.ok (stats, next)))
      (hrest : StopsAfter options indices m groups next) :
      StopsAfter options indices m (group :: groups) db

def AllAdmitted (groups : List Group) (db : Database digest) : Prop :=
  ∀ group ∈ groups, ∀ rule ∈ group.rules, db.Admits rule

theorem AllAdmitted.tail {group : Group} {groups : List Group} {db next : Database digest}
    (h : AllAdmitted (group :: groups) db) (hdb : db.WellFormed)
    (hnext : Quiet.Advances group.rules db next) : AllAdmitted groups next := by
  intro other hother rule hrule
  exact (hnext.admits_iff hdb rule).mpr (h other (List.mem_cons_of_mem group hother) rule hrule)

theorem exists_inTurn (options : Options) {groups : List Group} {db : Database digest}
    (hdb : db.WellFormed) (hadmits : AllAdmitted groups db) :
    ∃ counts last, InTurn options groups db counts last := by
  induction groups generalizing db with
  | nil => exact ⟨[], db, .nil db⟩
  | cons group groups ih =>
      have hgroup := hadmits group List.mem_cons_self
      obtain ⟨adds, next, hpasses, hends⟩ :=
        exists_passes options hdb (Quiet.Advances.refl hdb) hgroup (Nat.le_add_left _ _)
      have hadvances := (hpasses.spec hdb).1
      obtain ⟨counts, last, hrest⟩ :=
        ih hadvances.wellFormed (hadmits.tail hdb hadvances)
      exact ⟨_, last, .cons hpasses hends hrest⟩

/-- The capacity of a database leaves room for all passes over a group. -/
theorem Passes.length_le_capacity {options : Options} {group : Group} {db finish : Database digest}
    {adds : List Nat} (h : group.Passes options db adds finish) (hends : group.Ends adds)
    (hdb : db.WellFormed) (hadmits : ∀ rule ∈ group.rules, db.Admits rule) :
    adds.length ≤ db.capacity + 1 := by
  obtain ⟨hadvances, hcount⟩ := h.spec hdb
  have hle := hadvances.tupleCount_le hdb fun rule hrule => (hadmits rule hrule).bound
  have hlength := hends.length_le
  omega

section Turns

variable {options options' : Options} {group : Group} {groups : List Group}
  {db next last : Database digest} {adds : List Nat} {counts : List GroupStats}

theorem Passes.quiet_saturate_eq (h : group.Passes options db adds next) (hends : group.Ends adds)
    (hdb : db.WellFormed) (hadmits : ∀ rule ∈ group.rules, db.Admits rule)
    (hopen : ∀ k < adds.length, options'.exhausted k = false) :
    Quiet.saturate options' group db.capacity (.initial group) db =
      .ok ((GroupStats.initial group).after adds, next) := by
  have hpasses : group.Passes options' db adds next := h.of_options
  have hroom := h.length_le_capacity hends hdb hadmits
  have hopen' : ∀ k < adds.length,
      options'.exhausted ((GroupStats.initial group).passes + k) = false := by
    intro k hk
    exact (Nat.zero_add k).symm ▸ hopen k hk
  have hrun := hpasses.saturate_eq hends hroom hopen'
  rw [← group.ending_saturate options' db.capacity (.initial group) db (.new false), hrun]
  rfl

theorem InTurn.evaluateGroups_eq (h : InTurn options groups db counts last) (hdb : db.WellFormed)
    (hadmits : AllAdmitted groups db)
    (hopen : ∀ stats ∈ counts, ∀ k < stats.passes, options'.exhausted k = false) :
    Quiet.evaluateGroups options' groups db = .ok (counts, last) := by
  induction h with
  | nil db => rfl
  | @cons group groups db next last adds counts hpasses hends hrest ih =>
      obtain ⟨hfirst, hothers⟩ := List.forall_mem_cons.mp hopen
      rw [GroupStats.passes_after_initial] at hfirst
      have hadvances := (hpasses.spec hdb).1
      have hgroup := hadmits group List.mem_cons_self
      have hsaturate := hpasses.quiet_saturate_eq hends hdb hgroup hfirst
      have hmore := ih hadvances.wellFormed (hadmits.tail hdb hadvances) hothers
      exact Quiet.evaluateGroups_cons_eq_ok_iff.mpr ⟨_, next, counts, hsaturate, hmore, rfl⟩

/-- The first group that needs more passes than a limit allows is stopped there. -/
theorem InTurn.stopsAfter (h : InTurn options groups db counts last) (hdb : db.WellFormed)
    (hadmits : AllAdmitted groups db) {m : Nat}
    (hlimit : ∀ k, options'.exhausted k = decide (m ≤ k)) {stats : GroupStats}
    (hstats : counts.find? (m < ·.passes) = some stats) :
    StopsAfter options' stats.indices m groups db := by
  induction h with
  | nil db => cases hstats
  | @cons group groups db next last adds counts hpasses hends hrest ih =>
      have hgroup := hadmits group List.mem_cons_self
      have hadvances := (hpasses.spec hdb).1
      rw [List.find?_cons, GroupStats.passes_after_initial] at hstats
      by_cases hmore : m < adds.length
      · simp only [hmore, decide_true, Option.some.injEq] at hstats
        subst hstats
        have hpasses' : group.Passes options' db adds next := hpasses.of_options
        have hroom := hpasses.length_le_capacity hends hdb hgroup
        have hlimit' : ∀ k, options'.exhausted k =
            decide ((GroupStats.initial group).passes + m ≤ k) := by
          intro k
          exact (Nat.zero_add m).symm ▸ hlimit k
        obtain ⟨reached, hreached, hstop⟩ := hpasses'.saturate_eq_error hends hroom hmore hlimit'
        refine .here rfl hreached (List.length_take_of_le hmore.le) ?_
        simpa [GroupStats.initial] using hstop
      · simp only [hmore, decide_false] at hstats
        have hsaturate : Quiet.saturate options' group db.capacity (.initial group) db =
            .ok ((GroupStats.initial group).after adds, next) := by
          apply hpasses.quiet_saturate_eq hends hdb hgroup
          intro k hk
          rw [hlimit, decide_eq_false_iff_not]
          omega
        have hyields := group.evaluate_yields options' db
        rw [hsaturate] at hyields
        exact .later hyields
          (ih hadvances.wellFormed (hadmits.tail hdb hadvances) hstats)

theorem StopsAfter.evaluateGroups_eq_error {indices : List Nat} {m : Nat}
    (h : StopsAfter options indices m groups db) :
    Quiet.evaluateGroups options groups db = .error (.passLimit indices m) := by
  induction h with
  | @here group groups db reached adds hindices hpasses hlength hstop =>
      have hsaturate : Quiet.saturate options group db.capacity (.initial group) db =
          .error (.passLimit group.indices m) := by
        rw [← group.ending_saturate options db.capacity (.initial group) db (.new false), hstop]
        rfl
      rw [Quiet.evaluateGroups, hsaturate, hindices]
      rfl
  | @later group groups db next stats hfirst hrest ih =>
      have hsaturate : Quiet.saturate options group db.capacity (.initial group) db =
          .ok (stats, next) :=
        (group.evaluate_yields options db (.new false)).symm.trans (hfirst _)
      rw [Quiet.evaluateGroups, hsaturate, Quiet.ok_bind]
      dsimp only
      rw [ih]
      rfl

end Turns

end Group

namespace Group

/-- Groups add no more tuples than their heads can hold over the values that are
there at the beginning. -/
theorem InTurn.added_le {options : Options} {groups : List Group} {db last : Database digest}
    {counts : List GroupStats} (h : InTurn options groups db counts last) (hdb : db.WellFormed)
    (hadmits : AllAdmitted groups db) {values : List Bytes}
    (hvalues : ∀ name, ∀ t ∈ db.model name, ∀ v ∈ t, v ∈ values) :
    List.Forall₂ (fun group stats => stats.added ≤ db.headCapacity group values.length)
      groups counts := by
  induction h with
  | nil db => exact .nil
  | @cons group groups db next last adds counts hpasses hends hrest ih =>
      obtain ⟨hadvances, hcount⟩ := hpasses.spec hdb
      -- Tuples over the values are closed under the rules, so the next group starts with such.
      have hnext : ∀ name, ∀ t ∈ next.model name, ∀ v ∈ t, v ∈ values := by
        apply hadvances.sound (fun _ => {t | ∀ v ∈ t, v ∈ values})
        · intro rule hrule
          exact (hadmits group List.mem_cons_self rule hrule).bound.satisfiedBy_over values
        · exact hvalues
      have hle := Database.tupleCount_le_headCapacity hdb hadvances hnext
      have hothers := ih hadvances.wellFormed (hadmits.tail hdb hadvances) hnext
      refine .cons ?_ (hothers.imp fun other stats hother => ?_)
      · rw [GroupStats.added_after_initial]
        omega
      · rwa [Database.headCapacity_of_signature hadvances.signature_eq] at hother

theorem InTurn.passes_le {options : Options} {groups : List Group} {db last : Database digest}
    {counts : List GroupStats} (h : InTurn options groups db counts last) :
    ∀ stats ∈ counts, stats.passes ≤ stats.added + 1 := by
  induction h with
  | nil db => simp
  | cons hpasses hends hrest ih =>
      refine List.forall_mem_cons.mpr ⟨?_, ih⟩
      rw [GroupStats.passes_after_initial, GroupStats.added_after_initial]
      exact hends.length_le

end Group

namespace Program

/-- What the run of a program without a limit on the passes comes to, and what
follows from its counts for runs with a limit. -/
structure PassCounts (p : Program) (options : Options) (db : Database digest)
    (counts : List GroupStats) (last : Database digest) : Prop where
  /-- All groups of the plan come to an end, whoever watches. -/
  ends : (evaluateGroups options (Plan.ofRules p.rules).groups db).Yields (.ok (counts, last))
  /-- Each makes its passes in turn: one, or as many as it takes until one adds nothing. -/
  inTurn : Group.InTurn options (Plan.ofRules p.rules).groups db counts last
  passes_le : ∀ stats ∈ counts, stats.passes ≤ stats.added + 1
  /-- No group adds more than its heads can hold over the domain of the program. -/
  added_le : List.Forall₂
    (fun group stats => stats.added ≤ db.headCapacity group p.domain.length)
    (Plan.ofRules p.rules).groups counts
  /-- The run gives a result with these counts, or fails in a query. -/
  outcome :
    (∃ answers, p.evaluate options = .ok ⟨answers, counts, Plan.ofRules p.rules, last⟩) ∨
      ∃ query ∈ p.queries, ∃ cause,
        (p.evaluate options : Except Fault (Result digest)) = .error (.inQuery query cause)
  /-- A limit that no group exceeds makes no difference. -/
  within : ∀ m : Nat, 1 ≤ m → (∀ stats ∈ counts, stats.passes ≤ m) →
    (p.evaluate { options with maxPasses := m } : Except Fault (Result digest)) =
      p.evaluate options
  /-- Otherwise the first group that exceeds the limit is stopped and reported. -/
  beyond : ∀ m : Nat, 1 ≤ m → ∀ stats, counts.find? (m < ·.passes) = some stats →
    (p.evaluate { options with maxPasses := m } : Except Fault (Result digest)) =
      .error (.passLimit stats.indices m) ∧
    Group.StopsAfter { options with maxPasses := m } stats.indices m
      (Plan.ofRules p.rules).groups db

/-- A program that passes the checks is evaluated to an end without a limit on
the passes, and a limit cuts its run short exactly where it is exceeded. -/
theorem exists_passCounts {p : Program} (hplain : ∀ rule ∈ p.rules, rule.Plain)
    {db : Database digest} (hload : Database.load p = .ok db)
    (hvalid : db.validate p.rules = .ok ()) {options : Options} (hoptions : options.maxPasses ≤ 0) :
    ∃ counts last, p.PassCounts options db counts last := by
  have hdb := (Database.load_spec hload).1
  have hadmits : Group.AllAdmitted (Plan.ofRules p.rules).groups db :=
    Plan.forall_mem_groups.mpr ((Database.validate_eq_ok_iff hplain).mp hvalid)
  obtain ⟨counts, last, hturns⟩ := Group.exists_inTurn options hdb hadmits
  have hgroups : Quiet.evaluateGroups options (Plan.ofRules p.rules).groups db =
      .ok (counts, last) :=
    hturns.evaluateGroups_eq hdb hadmits fun _ _ k _ => Options.exhausted_eq_false hoptions k
  refine ⟨counts, last, ?_⟩
  constructor
  case ends =>
    rw [← hgroups]
    exact evaluateGroups_yields options _ db
  case inTurn => exact hturns
  case passes_le => exact hturns.passes_le
  case added_le =>
    apply hturns.added_le hdb hadmits
    intro name t ht v hv
    exact Database.mem_domain_of_load hload ht hv
  case outcome =>
    simp only [evaluate_eq_quiet, Quiet.evaluate_of_valid hload hvalid, hgroups, Quiet.ok_bind]
    cases hanswers : Quiet.answerQueries last p.queries with
    | ok answers => exact .inl ⟨answers, rfl⟩
    | error fault =>
        obtain ⟨query, hquery, cause, rfl⟩ := Quiet.inQuery_of_answerQueries hanswers
        exact .inr ⟨query, hquery, cause, rfl⟩
  case within =>
    intro m hm hle
    have hlimited : Quiet.evaluateGroups { options with maxPasses := m }
        (Plan.ofRules p.rules).groups db = .ok (counts, last) := by
      apply hturns.evaluateGroups_eq hdb hadmits
      intro stats hstats k hk
      have hpasses := hle stats hstats
      rw [Options.exhausted_eq hm rfl, decide_eq_false_iff_not]
      omega
    simp only [evaluate_eq_quiet, Quiet.evaluate_of_valid hload hvalid, hgroups, hlimited]
  case beyond =>
    intro m hm stats hstats
    have hstops : Group.StopsAfter { options with maxPasses := m } stats.indices m
        (Plan.ofRules p.rules).groups db :=
      hturns.stopsAfter hdb hadmits (Options.exhausted_eq hm rfl) hstats
    refine ⟨?_, hstops⟩
    rw [evaluate_eq_quiet, Quiet.evaluate_of_valid hload hvalid, hstops.evaluateGroups_eq_error]
    rfl

/-- A chain of three edges with its transitive closure, and a rule without a body. -/
def closureOfChain : Program where
  schemes := [⟨"edge", [.identifier "a", .identifier "b"]⟩, ⟨"flag", []⟩]
  facts := [⟨"edge", [.constant "1", .constant "2"]⟩, ⟨"edge", [.constant "2", .constant "3"]⟩,
    ⟨"edge", [.constant "3", .constant "4"]⟩]
  rules := [⟨⟨"flag", []⟩, []⟩,
    ⟨⟨"edge", [.identifier "x", .identifier "z"]⟩,
      [⟨"edge", [.identifier "x", .identifier "y"]⟩, ⟨"edge", [.identifier "y", .identifier "z"]⟩]⟩]
  queries := [⟨"edge", [.constant "1", .identifier "y"]⟩]

theorem exists_passCounts_closureOfChain :
    (∀ rule ∈ closureOfChain.rules, rule.Plain) ∧ ({} : Options).maxPasses ≤ 0 ∧
      ∃ db : Database Xxh64.digest, Database.load closureOfChain = .ok db ∧
        db.validate closureOfChain.rules = .ok () ∧
        ∃ counts last, closureOfChain.PassCounts {} db counts last ∧
          counts = [⟨[1], true, 3, 3⟩, ⟨[0], false, 1, 0⟩] ∧
          (closureOfChain.evaluate { maxPasses := 3 } : Except Fault (Result Xxh64.digest)) =
            closureOfChain.evaluate {} ∧
          (closureOfChain.evaluate { maxPasses := 2 } : Except Fault (Result Xxh64.digest)) =
            .error (.passLimit [1] 2) := by
  have hplain : ∀ rule ∈ closureOfChain.rules, rule.Plain := by
    unfold Rule.Plain Atom.Plain
    decide
  have hoptions : ({} : Options).maxPasses ≤ 0 := le_rfl
  have hrun : (Database.load closureOfChain >>= fun db : Database Xxh64.digest =>
      db.validate closureOfChain.rules >>= fun _ =>
        (evaluateGroups {} (Plan.ofRules closureOfChain.rules).groups db).outcome
          (.new false)).toOption.map (·.1) =
      some [⟨[1], true, 3, 3⟩, ⟨[0], false, 1, 0⟩] := by
    decide +kernel
  refine ⟨hplain, hoptions, ?_⟩
  cases hload : (Database.load closureOfChain : Except Fault (Database Xxh64.digest)) with
  | error fault =>
      rw [hload] at hrun
      cases hrun
  | ok db =>
      rw [hload, Quiet.ok_bind] at hrun
      cases hvalid : db.validate closureOfChain.rules with
      | error fault =>
          rw [hvalid] at hrun
          cases hrun
      | ok u =>
          obtain ⟨counts, last, h⟩ := exists_passCounts hplain hload hvalid hoptions
          rw [hvalid, Quiet.ok_bind, h.ends] at hrun
          have hcounts : counts = [⟨[1], true, 3, 3⟩, ⟨[0], false, 1, 0⟩] := Option.some.inj hrun
          refine ⟨db, rfl, hvalid, counts, last, h, hcounts, ?_, ?_⟩
          · exact h.within 3 (by decide) (by rw [hcounts]; decide)
          · exact (h.beyond 2 (by decide) ⟨[1], true, 3, 3⟩ (by rw [hcounts]; rfl)).1

end Program

end LeastModel
