import LeastModel.Proofs.Capacity
import LeastModel.Proofs.DependencyOrder

/-!
# Saturated groups

A group is left only after a pass that suffices: one that adds nothing, or any
pass when no rule of the group reads what the group derives. The units of room
never run out before, because every other pass adds a tuple and the capacity of
the database bounds their number (`exists_last_pass`). So a group ends with its
rules satisfied, and they stay satisfied, since later groups derive nothing that
an earlier group reads.
-/

namespace LeastModel

variable {digest : Digest}

/-- The counts after further passes. -/
def GroupStats.after (stats : GroupStats) (adds : List Nat) : GroupStats :=
  { stats with passes := stats.passes + adds.length, added := stats.added + Number.total adds }

namespace Quiet

/-! ## One group -/

/-- A group that comes to an end has done so with its first pass, or goes on
with less room after a pass that added something. -/
theorem saturate_cases
    {options : Options} {group : Group} {room : Nat} {stats stats' : GroupStats}
    {db db' : Database digest} (h : saturate options group room stats db = .ok (stats', db')) :
    ∃ next added, pass group.rules db 0 = .ok (next, added) ∧
      (db' = next ∧ stats' = stats.after [added] ∧
          (added = 0 ∨ group.recursive = false ∨ room = 0) ∨
        added ≠ 0 ∧ ∃ fewer, room = fewer + 1 ∧
          saturate options group fewer (stats.after [added]) next = .ok (stats', db')) := by
  rw [saturate] at h
  split at h
  · cases h
  · obtain ⟨⟨next, added⟩, hpass, h⟩ := bind_eq_ok_iff.mp h
    refine ⟨next, added, hpass, ?_⟩
    simp only at h
    split at h
    · rename_i hlast
      cases Except.ok.inj h
      rcases hlast with hnone | hrecursive
      · exact .inl ⟨rfl, rfl, .inl hnone⟩
      · exact .inl ⟨rfl, rfl, .inr (.inl (by simpa using hrecursive))⟩
    · rename_i hlast
      cases room with
      | zero =>
          cases Except.ok.inj h
          exact .inl ⟨rfl, rfl, .inr (.inr rfl)⟩
      | succ fewer => exact .inr ⟨fun hnone => hlast (.inl hnone), fewer, rfl, h⟩

/-- The heads of rules that have been applied are bound. -/
theorem bound_of_pass
    {rules : List Rule} (hbodies : ∀ rule ∈ rules, rule.body ≠ []) {db : Database digest}
    (hdb : db.WellFormed) {n : Nat} {result : Database digest × Nat}
    (h : pass rules db n = .ok result) : ∀ rule ∈ rules, rule.Bound :=
  fun rule hrule => ((pass_ok_iff hbodies hdb n).mp ⟨result, h⟩ rule hrule).bound

/-- The last pass of a group adds nothing, unless the group needs only one. -/
theorem exists_last_pass
    {options : Options} {group : Group} (hbodies : ∀ rule ∈ group.rules, rule.body ≠ [])
    {start db db' : Database digest} (hstart : start.WellFormed)
    (hadvances : Advances group.rules start db) {room : Nat}
    (hroom : start.capacity ≤ db.tupleCount + room) {stats stats' : GroupStats}
    (h : saturate options group room stats db = .ok (stats', db')) :
    ∃ before added, Advances group.rules db before ∧
      pass group.rules before 0 = .ok (db', added) ∧ (added = 0 ∨ group.recursive = false) := by
  -- What is left of the capacity is at most what is left of the room.
  induction room using Nat.strongRecOn generalizing db stats with
  | _ room ih =>
      obtain ⟨next, added, hpass, hlast⟩ := saturate_cases h
      have hnext := advances_of_pass hbodies hadvances.wellFormed hpass
      have hcount := (tupleCount_pass hbodies hadvances.wellFormed hpass).1
      have hle := (hadvances.trans hnext).tupleCount_le hstart
        (bound_of_pass hbodies hadvances.wellFormed hpass)
      have hrefl : Advances group.rules db db := Advances.refl hadvances.wellFormed
      rcases hlast with ⟨rfl, -, hnone | hrecursive | rfl⟩ | ⟨hadded, fewer, rfl, hrest⟩
      · exact ⟨db, added, hrefl, hpass, .inl hnone⟩
      · exact ⟨db, added, hrefl, hpass, .inr hrecursive⟩
      · exact ⟨db, added, hrefl, hpass, .inl (by omega)⟩
      · obtain ⟨before, added', hbefore, hpass', hend⟩ :=
          ih fewer (Nat.lt_succ_self fewer) (hadvances.trans hnext) (by omega) hrest
        exact ⟨before, added', hnext.trans hbefore, hpass', hend⟩

theorem exists_last_pass_of_group
    {options : Options} {group : Group} (hbodies : ∀ rule ∈ group.rules, rule.body ≠ [])
    {db db' : Database digest} (hdb : db.WellFormed) {stats stats' : GroupStats}
    (h : saturate options group db.capacity stats db = .ok (stats', db')) :
    ∃ before added, Advances group.rules db before ∧
      pass group.rules before 0 = .ok (db', added) ∧ (added = 0 ∨ group.recursive = false) :=
  exists_last_pass hbodies hdb (Advances.refl hdb) (Nat.le_add_left _ _) h

theorem advances_of_saturate
    {options : Options} {group : Group} (hbodies : ∀ rule ∈ group.rules, rule.body ≠ [])
    {db db' : Database digest} (hdb : db.WellFormed) {stats stats' : GroupStats}
    (h : saturate options group db.capacity stats db = .ok (stats', db')) :
    Advances group.rules db db' := by
  obtain ⟨before, added, hbefore, hpass, -⟩ := exists_last_pass_of_group hbodies hdb h
  exact hbefore.trans (advances_of_pass hbodies hbefore.wellFormed hpass)

/-- A group ends with its rules satisfied. -/
theorem satisfiedBy_of_saturate
    {options : Options} {group : Group} (hbodies : ∀ rule ∈ group.rules, rule.body ≠ [])
    (hreads : group.recursive = false → ∀ reader ∈ group.rules, ∀ atom ∈ reader.body,
      ∀ writer ∈ group.rules, atom.name ≠ writer.head.name)
    {db db' : Database digest} (hdb : db.WellFormed) {stats stats' : GroupStats}
    (h : saturate options group db.capacity stats db = .ok (stats', db'))
    {rule : Rule} (hrule : rule ∈ group.rules) : rule.SatisfiedBy db'.model := by
  obtain ⟨before, added, hbefore, hpass, hlast⟩ := exists_last_pass_of_group hbodies hdb h
  rcases hlast with rfl | hrecursive
  · exact satisfiedBy_of_idle_pass hbodies hbefore.wellFormed hpass hrule
  · exact satisfiedBy_of_pass hbodies (hreads hrecursive) hbefore.wellFormed hpass hrule

/-- Without a bound on the passes, a group comes to an end when its rules fit
the database. -/
theorem saturate_ok_iff
    {options : Options} (hoptions : options.maxPasses ≤ 0) {group : Group}
    (hbodies : ∀ rule ∈ group.rules, rule.body ≠ []) {db : Database digest}
    (hdb : db.WellFormed) (room : Nat) (stats : GroupStats) :
    (∃ result, saturate options group room stats db = .ok result) ↔
      ∀ rule ∈ group.rules, db.Admits rule := by
  rw [← pass_ok_iff hbodies hdb 0]
  constructor
  · rintro ⟨⟨stats', db'⟩, h⟩
    obtain ⟨next, added, hpass, -⟩ := saturate_cases h
    exact ⟨_, hpass⟩
  · intro hpass
    have hopen : ∀ passes, options.exhausted passes = false := by
      intro passes
      simp [Options.exhausted, hoptions]
    induction room using Nat.strongRecOn generalizing db stats with
    | _ room ih =>
        have hadmits := (pass_ok_iff hbodies hdb 0).mp hpass
        obtain ⟨⟨next, added⟩, hpass⟩ := hpass
        have hnext := advances_of_pass hbodies hdb hpass
        have hagain := (pass_ok_iff hbodies hnext.wellFormed 0).mpr fun rule hrule =>
          (hnext.admits_iff hdb rule).mpr (hadmits rule hrule)
        rw [saturate, hopen, hpass, ok_bind]
        simp only [Bool.false_eq_true, if_false]
        split
        · exact ⟨_, rfl⟩
        · cases room with
          | zero => exact ⟨_, rfl⟩
          | succ fewer => exact ih fewer (Nat.lt_succ_self fewer) hnext.wellFormed _ hagain

/-! ## All groups -/

theorem evaluateGroups_cons_eq_ok_iff
    {options : Options} {group : Group} {groups : List Group} {db db' : Database digest}
    {counts : List GroupStats} :
    evaluateGroups options (group :: groups) db = .ok (counts, db') ↔
      ∃ stats next more,
        saturate options group db.capacity (.initial group) db = .ok (stats, next) ∧
        evaluateGroups options groups next = .ok (more, db') ∧ counts = stats :: more := by
  rw [evaluateGroups, bind_eq_ok_iff]
  constructor
  · rintro ⟨⟨stats, next⟩, hsaturate, h⟩
    obtain ⟨⟨more, last⟩, hmore, h⟩ := bind_eq_ok_iff.mp h
    cases Except.ok.inj h
    exact ⟨stats, next, more, hsaturate, hmore, rfl⟩
  · rintro ⟨stats, next, more, hsaturate, hmore, rfl⟩
    exact ⟨(stats, next), hsaturate, bind_eq_ok_iff.mpr ⟨(more, db'), hmore, rfl⟩⟩

/-- The rules of groups. -/
def rulesOf (groups : List Group) : List Rule := groups.flatMap (·.rules)

theorem advances_of_evaluateGroups
    {options : Options} {groups : List Group}
    (hbodies : ∀ group ∈ groups, ∀ rule ∈ group.rules, rule.body ≠ [])
    {db db' : Database digest} (hdb : db.WellFormed) {counts : List GroupStats}
    (h : evaluateGroups options groups db = .ok (counts, db')) :
    Advances (rulesOf groups) db db' := by
  induction groups generalizing db counts with
  | nil =>
      cases Except.ok.inj h
      exact Advances.refl hdb
  | cons group groups ih =>
      obtain ⟨stats, next, more, hsaturate, hmore, -⟩ := evaluateGroups_cons_eq_ok_iff.mp h
      obtain ⟨hbody, hbodies⟩ := List.forall_mem_cons.mp hbodies
      have hfirst := advances_of_saturate hbody hdb hsaturate
      have hothers := ih hbodies hfirst.wellFormed hmore
      rw [rulesOf, List.flatMap_cons]
      exact (hfirst.mono fun _ => List.mem_append_left _).trans
        (hothers.mono fun _ => List.mem_append_right _)

/-- Groups in an order in which none reads what a later one derives end with all
their rules satisfied. -/
theorem satisfiedBy_of_evaluateGroups
    {options : Options} {groups : List Group}
    (hbodies : ∀ group ∈ groups, ∀ rule ∈ group.rules, rule.body ≠ [])
    (hreads : ∀ group ∈ groups, group.recursive = false → ∀ reader ∈ group.rules,
      ∀ atom ∈ reader.body, ∀ writer ∈ group.rules, atom.name ≠ writer.head.name)
    (horder : groups.Pairwise fun earlier later => ∀ reader ∈ earlier.rules,
      ∀ writer ∈ later.rules, ∀ atom ∈ reader.body, atom.name ≠ writer.head.name)
    {db db' : Database digest} (hdb : db.WellFormed) {counts : List GroupStats}
    (h : evaluateGroups options groups db = .ok (counts, db')) :
    ∀ group ∈ groups, ∀ rule ∈ group.rules, rule.SatisfiedBy db'.model := by
  induction groups generalizing db counts with
  | nil => simp
  | cons group groups ih =>
      obtain ⟨stats, next, more, hsaturate, hmore, -⟩ := evaluateGroups_cons_eq_ok_iff.mp h
      obtain ⟨hbody, hbodies⟩ := List.forall_mem_cons.mp hbodies
      obtain ⟨hread, hreads⟩ := List.forall_mem_cons.mp hreads
      obtain ⟨hlater, horder⟩ := List.pairwise_cons.mp horder
      have hfirst := advances_of_saturate hbody hdb hsaturate
      have hothers := advances_of_evaluateGroups hbodies hfirst.wellFormed hmore
      refine List.forall_mem_cons.mpr ⟨?_, ih hbodies hreads horder hfirst.wellFormed hmore⟩
      intro rule hrule
      refine hothers.satisfiedBy ?_ (satisfiedBy_of_saturate hbody hread hdb hsaturate hrule)
      intro atom hatom writer hwriter
      obtain ⟨later, hmem, hwriter⟩ := List.mem_flatMap.mp hwriter
      exact hlater later hmem rule hrule writer hwriter atom hatom

/-- Without a bound on the passes, groups come to an end when their rules fit
the database. -/
theorem evaluateGroups_ok_iff
    {options : Options} (hoptions : options.maxPasses ≤ 0) {groups : List Group}
    (hbodies : ∀ group ∈ groups, ∀ rule ∈ group.rules, rule.body ≠ [])
    {db : Database digest} (hdb : db.WellFormed) :
    (∃ result, evaluateGroups options groups db = .ok result) ↔
      ∀ group ∈ groups, ∀ rule ∈ group.rules, db.Admits rule := by
  induction groups generalizing db with
  | nil => exact ⟨fun _ => by simp, fun _ => ⟨_, rfl⟩⟩
  | cons group groups ih =>
      obtain ⟨hbody, hbodies⟩ := List.forall_mem_cons.mp hbodies
      rw [List.forall_mem_cons,
        ← saturate_ok_iff hoptions hbody hdb db.capacity (.initial group)]
      constructor
      · rintro ⟨⟨counts, db'⟩, h⟩
        obtain ⟨stats, next, more, hsaturate, hmore, -⟩ := evaluateGroups_cons_eq_ok_iff.mp h
        have hfirst := advances_of_saturate hbody hdb hsaturate
        refine ⟨⟨_, hsaturate⟩, fun other hother rule hrule => ?_⟩
        have hadmits := (ih hbodies hfirst.wellFormed).mp ⟨_, hmore⟩ other hother rule hrule
        exact (hfirst.admits_iff hdb rule).mp hadmits
      · rintro ⟨⟨⟨stats, next⟩, hsaturate⟩, hadmits⟩
        have hfirst := advances_of_saturate hbody hdb hsaturate
        obtain ⟨⟨more, db'⟩, hmore⟩ := (ih hbodies hfirst.wellFormed).mpr
          fun other hother rule hrule =>
            (hfirst.admits_iff hdb rule).mpr (hadmits other hother rule hrule)
        exact ⟨(stats :: more, db'),
          evaluateGroups_cons_eq_ok_iff.mpr ⟨stats, next, more, hsaturate, hmore, rfl⟩⟩

end Quiet

end LeastModel
