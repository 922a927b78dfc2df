import LeastModel.Proofs.DatabaseRequests
import LeastModel.Proofs.RuleChecks
import Mathlib.Data.Set.Card

/-!
# One application of a rule

The consequences of a rule in a database are what its head stands for under the
assignments for which the rule fires. One application puts those that are new
behind the tuples of the head relation, touches nothing else, and counts both
the consequences and the new ones among them.

The databases in question are those that requests lead to. Loading a program and
applying rules are requests as well, so every database of an evaluation is among
them (`Reachable.of_load`, `Reachable.of_derive`).

## Main statement

`Rule.derive_isConsequenceStep`: a rule that passes the checks is applied in this
way to every reachable database.
-/

namespace LeastModel

variable {digest : Digest}

namespace Database

/-! ## Databases that requests lead to -/

def Reachable (db : Database digest) : Prop := ∃ requests, db = ofRequests requests

theorem Reachable.sound {db : Database digest} (h : db.Reachable) : db.Sound := by
  obtain ⟨requests, rfl⟩ := h
  exact sound_ofRequests requests

theorem Reachable.after {db : Database digest} (h : db.Reachable) (request : Request digest) :
    (db.after request).Reachable := by
  obtain ⟨requests, rfl⟩ := h
  exact ⟨requests ++ [request], (ofRequests_concat requests request).symm⟩

theorem Reachable.of_declareAll {db db' : Database digest} (h : db.Reachable)
    {schemes : List Atom} (hdeclare : db.declareAll schemes = .ok db') : db'.Reachable := by
  induction schemes generalizing db with
  | nil => exact Except.ok.inj hdeclare ▸ h
  | cons scheme schemes ih =>
      obtain ⟨declared, hdeclared, hrest⟩ := declareAll_cons_eq_ok_iff.mp hdeclare
      have hafter : db.after (.declare scheme) = declared := congrArg Prod.snd hdeclared
      exact ih (hafter ▸ h.after (.declare scheme)) hrest

theorem Reachable.of_addFacts {db db' : Database digest} (h : db.Reachable)
    {facts : List Atom} (hadd : db.addFacts facts = .ok db') : db'.Reachable := by
  induction facts generalizing db with
  | nil => exact Except.ok.inj hadd ▸ h
  | cons fact facts ih =>
      obtain ⟨new, added, hadded, hrest⟩ := addFacts_cons_eq_ok_iff.mp hadd
      have hafter : db.after (.addFact fact) = added := congrArg Prod.snd hadded
      exact ih (hafter ▸ h.after (.addFact fact)) hrest

theorem Reachable.of_load {p : Program} {db : Database digest} (h : load p = .ok db) :
    db.Reachable := by
  obtain ⟨declared, hdeclared, hfacts⟩ := bind_eq_ok_iff.mp h
  have hempty : (empty : Database digest).Reachable := ⟨[], rfl⟩
  exact (hempty.of_declareAll hdeclared).of_addFacts hfacts

theorem Sound.built_query {db : Database digest} (h : db.Sound) {atom : Atom}
    {s : Relation digest} (hs : db.query atom = .ok s) : s.Built := by
  obtain ⟨r, hr, hinstances⟩ := query_eq_ok_iff.mp hs
  exact .instances (h.built hr) hinstances

theorem Sound.built_joinBody {db : Database digest} (h : db.Sound) {rule : Rule}
    {atoms : List Atom} {seen : Option (Relation digest)} (hseen : ∀ left ∈ seen, left.Built)
    {joined : Option (Relation digest)} (hjoin : Quiet.joinBody db rule atoms seen = .ok joined) :
    ∀ r ∈ joined, r.Built := by
  induction atoms generalizing seen with
  | nil => exact Except.ok.inj hjoin ▸ hseen
  | cons atom atoms ih =>
      obtain ⟨here, hhere, hrest⟩ := bind_eq_ok_iff.mp hjoin
      have hbuilt := h.built_query (mapError_eq_ok_iff.mp hhere)
      cases seen with
      | none => exact ih (by simpa using hbuilt) hrest
      | some left =>
          have hleft : left.Built := hseen left rfl
          exact ih (by simpa using hleft.join hbuilt) hrest

/-- Applying a rule is a request to merge what its head picks from the join. -/
theorem Reachable.of_derive {db : Database digest} (h : db.Reachable) {rule : Rule}
    {a : Rule.Application digest} (ha : Quiet.derive db rule = .ok a) :
    a.database.Reachable := by
  obtain ⟨joined, hjoined, ha⟩ := bind_eq_ok_iff.mp ha
  cases joined with
  | none => exact Except.ok.inj ha ▸ h
  | some joined =>
      obtain ⟨projected, hprojected, ha⟩ := bind_eq_ok_iff.mp ha
      obtain ⟨added, -, ha⟩ := bind_eq_ok_iff.mp ha
      have hbuilt : projected.Built :=
        .projectAtom (h.sound.built_joinBody (by simp) hjoined joined rfl)
          (mapError_eq_ok_iff.mp hprojected)
      cases Except.ok.inj ha
      exact h.after (.merge rule.head.name projected hbuilt)

/-! ## Taking in tuples -/

/-- `db'` is `db` with the tuples `new` put behind those of the relation `name`. -/
structure TakesIn (db : Database digest) (name : Bytes) (new : List Tuple)
    (db' : Database digest) : Prop where
  names_eq : db'.names = db.names
  others : ∀ other, other ≠ name → db'.find? other = db.find? other
  there : ∃ r r', db.find? name = some r ∧ db'.find? name = some r' ∧
    r'.schema = r.schema ∧ r'.tuples = r.tuples ++ new

/-- A merge takes in the tuples that are not there yet, and counts them. -/
theorem takesIn_of_merge {db db' : Database digest} (hdb : db.WellFormed) {name : Bytes}
    {r : Relation digest} (hr : r.WellFormed) {n : Nat} (h : db.merge name r = (.ok n, db')) :
    ∃ new, db.TakesIn name new db' ∧ new.Nodup ∧ new.length = n ∧
      ∀ t, t ∈ new ↔ t ∈ r.tuples ∧ t ∉ db.model name := by
  obtain ⟨current, hcurrent, -, rfl, rfl⟩ := merge_eq_ok_iff.mp h
  have hcwell := hdb.found hcurrent
  have hnodup : (r.tuples.filter (· ∉ current.tuples)).Nodup := hr.set.nodup.filter _
  have htuples : (current.insertAll r.tuples).tuples =
      current.tuples ++ r.tuples.filter (· ∉ current.tuples) := by
    rw [Relation.tuples_insertAll hcwell, FirstOccurrences.eraseDups_eq_self hnodup]
  refine ⟨r.tuples.filter (· ∉ current.tuples), ?_, hnodup, ?_, ?_⟩
  · constructor
    case names_eq => exact names_put db name _
    case others => exact fun other hother => find?_put_of_ne db hother _
    case there =>
      exact ⟨current, current.insertAll r.tuples, hcurrent, find?_put_self db name _, rfl, htuples⟩
  · rw [Relation.size_eq_length, Relation.size_eq_length, htuples, List.length_append]
    omega
  · intro t
    simp [mem_model, hcurrent]

end Database

/-! ## Consequences of a rule -/

namespace Rule

/-- What the head stands for under the assignments for which the rule fires. -/
def consequences (rule : Rule) (db : Database digest) : Set Tuple :=
  {t | ∃ σ, rule.Fires db.model σ ∧ t = rule.head.ground σ}

/-- An application of a rule adds its consequences, and tells how many there are
and how many of them are new. -/
structure IsConsequenceStep (rule : Rule) (db : Database digest)
    (a : Application digest) : Prop where
  /-- The new consequences come after what the head relation had; all else stays. -/
  database : ∃ new, db.TakesIn rule.head.name new a.database ∧ new.Nodup ∧
    ∀ t, t ∈ new ↔ t ∈ rule.consequences db ∧ t ∉ db.model rule.head.name
  finite : (rule.consequences db).Finite
  derived_eq : a.derived = (rule.consequences db).ncard
  added_eq : a.added = (rule.consequences db \ db.model rule.head.name).ncard

end Rule

theorem finite_and_ncard_of_nodup {α : Type} {xs : List α} (hxs : xs.Nodup) {s : Set α}
    (h : ∀ x, x ∈ xs ↔ x ∈ s) : s.Finite ∧ s.ncard = xs.length := by
  classical
  have hs : s = (xs.toFinset : Set α) := by
    ext x
    rw [List.coe_toFinset, Set.mem_ofPred_eq, h]
  rw [hs, Set.ncard_coe_finset, List.toFinset_card_of_nodup hxs]
  exact ⟨xs.toFinset.finite_toSet, rfl⟩

theorem Quiet.isConsequenceStep_of_derive {db : Database digest} (hdb : db.WellFormed)
    {rule : Rule} (hbody : rule.body ≠ []) {a : Rule.Application digest}
    (h : derive db rule = .ok a) : rule.IsConsequenceStep db a := by
  obtain ⟨projected, hwell, hyields, hmerge, hderived⟩ := derive_merges hdb hbody h
  obtain ⟨new, htakes, hnodup, hlength, hnew⟩ := Database.takesIn_of_merge hdb hwell hmerge
  have hmem : ∀ t, t ∈ projected.tuples ↔ t ∈ rule.consequences db := hyields
  have hfresh : ∀ t, t ∈ new ↔ t ∈ rule.consequences db \ db.model rule.head.name := by
    intro t
    rw [hnew, hmem, Set.mem_sdiff]
  obtain ⟨hfinite, hcard⟩ := finite_and_ncard_of_nodup hwell.set.nodup hmem
  constructor
  case database => exact ⟨new, htakes, hnodup, hfresh⟩
  case finite => exact hfinite
  case derived_eq => rw [hderived, hcard, Relation.size_eq_length, Relation.tuples]
  case added_eq => rw [(finite_and_ncard_of_nodup hnodup hfresh).2, hlength]

/-- A rule that passes the checks of a reachable database is applied to it: its
new consequences are added to the head relation, and the database stays reachable. -/
theorem Rule.derive_isConsequenceStep {db : Database digest} (hdb : db.Reachable) {rule : Rule}
    (hplain : rule.Plain) (hbody : rule.body ≠ []) (hvalid : db.validate [rule] = .ok ()) :
    ∃ a, (∀ options, (rule.derive options db).Yields (.ok a)) ∧ rule.IsConsequenceStep db a ∧
      a.database.Reachable := by
  have hwell := hdb.sound.wellFormed
  have hadmits : db.Admits rule :=
    (Database.validate_eq_ok_iff (by simpa using hplain)).mp hvalid rule List.mem_cons_self
  obtain ⟨a, ha⟩ := (Quiet.derive_ok_iff hwell hbody).mpr hadmits
  refine ⟨a, ?_, Quiet.isConsequenceStep_of_derive hwell hbody ha, hdb.of_derive ha⟩
  intro options
  rw [← ha]
  exact rule.derive_yields options db

namespace Program

/-- A graph in which a node with an edge to itself is found by a rule about edges
in both directions, a constant, and a variable that the head repeats. -/
def loops : Program where
  schemes := [⟨"edge", [.identifier "a", .identifier "b"]⟩]
  facts := [⟨"edge", [.constant "1", .constant "2"]⟩, ⟨"edge", [.constant "2", .constant "1"]⟩,
    ⟨"edge", [.constant "1", .constant "1"]⟩]
  rules := []
  queries := []

def loopRule : Rule where
  head := ⟨"edge", [.identifier "x", .identifier "x"]⟩
  body := [⟨"edge", [.identifier "x", .identifier "y"]⟩,
    ⟨"edge", [.identifier "y", .identifier "x"]⟩, ⟨"edge", [.identifier "y", .constant "1"]⟩]

theorem derive_isConsequenceStep_loops :
    loopRule.Plain ∧ loopRule.body ≠ [] ∧
      ∃ db : Database Xxh64.digest, Database.load loops = .ok db ∧ db.Reachable ∧
        db.validate [loopRule] = .ok () ∧
        ∃ a, (∀ options, (loopRule.derive options db).Yields (.ok a)) ∧
          loopRule.IsConsequenceStep db a ∧ a.database.Reachable ∧
          (a.derived, a.added) = (2, 1) := by
  have hplain : loopRule.Plain := by
    unfold Rule.Plain Atom.Plain
    decide
  have hbody : loopRule.body ≠ [] := by decide
  have hrun : (Database.load loops >>= fun db : Database Xxh64.digest =>
      db.validate [loopRule] >>= fun _ =>
        (loopRule.derive {} db).outcome (.new false)).toOption.map
          (fun a => (a.derived, a.added)) = some (2, 1) := by
    decide +kernel
  obtain ⟨a, hderive, hcounts⟩ := exists_ok_of_map_toOption hrun
  obtain ⟨db, hload, hderive⟩ := bind_eq_ok_iff.mp hderive
  obtain ⟨u, hvalid, hderive⟩ := bind_eq_ok_iff.mp hderive
  have hreachable : db.Reachable := .of_load hload
  obtain ⟨a', hyields, hstep, hafter⟩ :=
    Rule.derive_isConsequenceStep hreachable hplain hbody hvalid
  have hsame : a' = a := Except.ok.inj ((hyields {} (.new false)).symm.trans hderive)
  rw [hsame] at hyields hstep hafter
  exact ⟨hplain, hbody, db, hload, hreachable, hvalid, a, hyields, hstep, hafter, hcounts⟩

end Program

end LeastModel
