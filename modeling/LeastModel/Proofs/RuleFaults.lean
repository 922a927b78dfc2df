import LeastModel.Proofs.Saturation

/-!
# Where an evaluation can fail

Groups fail at a limit on their passes or in a pass, and a pass fails in one of
its rules. Since the signature never changes, a pass over rules that fit the
database at the beginning does not fail, however far the evaluation has come.
-/

namespace LeastModel

variable {digest : Digest}

/-- A failure in one of the rules. -/
def Fault.ArisesIn (fault : Fault) (rules : List Rule) : Prop :=
  ∃ rule ∈ rules, ∃ cause, fault = .inRule rule cause

namespace Quiet

/-! ## Rules -/

theorem arisesIn_of_mapError
    {α : Type} {x : Except Fault α} {rule : Rule} {fault : Fault}
    (h : x.mapError (.inRule rule) = .error fault) : fault.ArisesIn [rule] := by
  obtain ⟨cause, -, rfl⟩ := exists_of_mapError h
  exact ⟨rule, List.mem_singleton_self rule, cause, rfl⟩

theorem arisesIn_of_joinBody
    {db : Database digest} {rule : Rule} {atoms : List Atom}
    {joined : Option (Relation digest)} {fault : Fault}
    (h : joinBody db rule atoms joined = .error fault) : fault.ArisesIn [rule] := by
  induction atoms generalizing joined with
  | nil => exact nomatch h
  | cons atom atoms ih =>
      rcases bind_eq_error_iff.mp h with h | ⟨here, -, h⟩
      · exact arisesIn_of_mapError h
      · cases joined with
        | none => exact ih h
        | some left => exact ih h

theorem arisesIn_of_derive
    {db : Database digest} {rule : Rule} {fault : Fault}
    (h : derive db rule = .error fault) : fault.ArisesIn [rule] := by
  rcases bind_eq_error_iff.mp h with h | ⟨joined, -, h⟩
  · exact arisesIn_of_joinBody h
  · cases joined with
    | none => exact nomatch h
    | some joined =>
        rcases bind_eq_error_iff.mp h with h | ⟨projected, -, h⟩
        · exact arisesIn_of_mapError h
        · rcases bind_eq_error_iff.mp h with h | ⟨merged, -, h⟩
          · exact arisesIn_of_mapError h
          · exact nomatch h

/-! ## Passes -/

theorem arisesIn_of_pass
    {rules : List Rule} {db : Database digest} {n : Nat} {fault : Fault}
    (h : pass rules db n = .error fault) : fault.ArisesIn rules := by
  induction rules generalizing db n with
  | nil => exact nomatch h
  | cons rule rules ih =>
      rcases bind_eq_error_iff.mp h with h | ⟨a, -, h⟩
      · obtain ⟨other, hother, cause, rfl⟩ := arisesIn_of_derive h
        exact ⟨other, List.mem_cons.mpr (.inl (List.mem_singleton.mp hother)), cause, rfl⟩
      · obtain ⟨other, hother, cause, rfl⟩ := ih h
        exact ⟨other, List.mem_cons_of_mem rule hother, cause, rfl⟩

theorem saturate_error_cases
    {options : Options} {group : Group} {room : Nat} {stats : GroupStats}
    {db : Database digest} {fault : Fault}
    (h : saturate options group room stats db = .error fault) :
    (0 < options.maxPasses ∧ ∃ indices passes, fault = .passLimit indices passes) ∨
      pass group.rules db 0 = .error fault ∨
        ∃ next added fewer counts, pass group.rules db 0 = .ok (next, added) ∧
          room = fewer + 1 ∧ saturate options group fewer counts next = .error fault := by
  rw [saturate] at h
  split at h
  · rename_i hexhausted
    obtain ⟨hpositive, -⟩ := Bool.and_eq_true_iff.mp hexhausted
    exact .inl ⟨of_decide_eq_true hpositive, _, _, (Except.error.inj h).symm⟩
  · rcases bind_eq_error_iff.mp h with h | ⟨⟨next, added⟩, hpass, h⟩
    · exact .inr (.inl h)
    · simp only at h
      split at h
      · cases h
      · cases room with
        | zero => cases h
        | succ fewer => exact .inr (.inr ⟨next, added, fewer, _, hpass, rfl, h⟩)

/-- A group fails at the limit on its passes or in a pass. -/
theorem exists_failing_pass_of_saturate
    {options : Options} {group : Group} (hbodies : ∀ rule ∈ group.rules, rule.body ≠ [])
    {db : Database digest} (hdb : db.WellFormed) {room : Nat} {stats : GroupStats}
    {fault : Fault} (h : saturate options group room stats db = .error fault) :
    (0 < options.maxPasses ∧ ∃ indices passes, fault = .passLimit indices passes) ∨
      ∃ db', Advances group.rules db db' ∧ pass group.rules db' 0 = .error fault := by
  induction room using Nat.strongRecOn generalizing db stats with
  | _ room ih =>
      rcases saturate_error_cases h with
        hlimit | hpass | ⟨next, added, fewer, counts, hpass, rfl, hagain⟩
      · exact .inl hlimit
      · exact .inr ⟨db, Advances.refl hdb, hpass⟩
      · have hnext := advances_of_pass hbodies hdb hpass
        rcases ih fewer (Nat.lt_succ_self fewer) hnext.wellFormed hagain with
          hlimit | ⟨db', hdb', hfail⟩
        · exact .inl hlimit
        · exact .inr ⟨db', hnext.trans hdb', hfail⟩

theorem exists_failing_pass_of_evaluateGroups
    {options : Options} {groups : List Group}
    (hbodies : ∀ group ∈ groups, ∀ rule ∈ group.rules, rule.body ≠ [])
    {db : Database digest} (hdb : db.WellFormed) {fault : Fault}
    (h : evaluateGroups options groups db = .error fault) :
    (0 < options.maxPasses ∧ ∃ indices passes, fault = .passLimit indices passes) ∨
      ∃ group ∈ groups, ∃ db' : Database digest, db'.WellFormed ∧ db'.signature = db.signature ∧
        pass group.rules db' 0 = .error fault := by
  induction groups generalizing db with
  | nil => exact nomatch h
  | cons group groups ih =>
      obtain ⟨hbody, hbodies⟩ := List.forall_mem_cons.mp hbodies
      rcases bind_eq_error_iff.mp h with h | ⟨⟨stats, next⟩, hsaturate, h⟩
      · rcases exists_failing_pass_of_saturate hbody hdb h with hlimit | ⟨db', hdb', hfail⟩
        · exact .inl hlimit
        · exact .inr ⟨group, List.mem_cons_self, db', hdb'.wellFormed, hdb'.signature_eq, hfail⟩
      · have hfirst := advances_of_saturate hbody hdb hsaturate
        rcases bind_eq_error_iff.mp h with h | ⟨⟨more, last⟩, -, h⟩
        · rcases ih hbodies hfirst.wellFormed h with
            hlimit | ⟨other, hother, db', hwell, hsignature, hfail⟩
          · exact .inl hlimit
          · exact .inr ⟨other, List.mem_cons_of_mem group hother, db', hwell,
              hsignature.trans hfirst.signature_eq, hfail⟩
        · exact nomatch h

/-- Without a limit on the passes groups fail in one of their rules. -/
theorem arisesIn_of_evaluateGroups
    {options : Options} (hoptions : options.maxPasses ≤ 0) {groups : List Group}
    (hbodies : ∀ group ∈ groups, ∀ rule ∈ group.rules, rule.body ≠ [])
    {db : Database digest} (hdb : db.WellFormed) {fault : Fault}
    (h : evaluateGroups options groups db = .error fault) : fault.ArisesIn (rulesOf groups) := by
  rcases exists_failing_pass_of_evaluateGroups hbodies hdb h with
    ⟨hlimit, -⟩ | ⟨group, hgroup, db', -, -, hfail⟩
  · exact absurd hlimit (by omega)
  · obtain ⟨rule, hrule, cause, rfl⟩ := arisesIn_of_pass hfail
    exact ⟨rule, List.mem_flatMap.mpr ⟨group, hgroup, hrule⟩, cause, rfl⟩

/-- Rules that fit the database never fail. -/
theorem evaluateGroups_ne_inRule
    {options : Options} {groups : List Group}
    (hbodies : ∀ group ∈ groups, ∀ rule ∈ group.rules, rule.body ≠ [])
    {db : Database digest} (hdb : db.WellFormed)
    (hadmits : ∀ group ∈ groups, ∀ rule ∈ group.rules, db.Admits rule)
    (rule : Rule) (cause : Fault) :
    evaluateGroups options groups db ≠ .error (.inRule rule cause) := by
  intro h
  rcases exists_failing_pass_of_evaluateGroups hbodies hdb h with
    ⟨-, indices, passes, hlimit⟩ | ⟨group, hgroup, db', hwell, hsignature, hfail⟩
  · exact nomatch hlimit
  · obtain ⟨result, hresult⟩ := (pass_ok_iff (hbodies group hgroup) hwell 0).mpr
      fun rule hrule => (hadmits group hgroup rule hrule).of_signature hdb hwell hsignature
    exact nomatch hfail.symm.trans hresult

end Quiet

end LeastModel
