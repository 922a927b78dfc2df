import LeastModel.Proofs.Saturation
import Mathlib.Order.Bounds.Defs

/-!
# The least model

The tuples that a program speaks for are the least family of sets that has its
facts and is closed under its rules. A successful evaluation ends with exactly
these tuples, although its groups are evaluated one after another, and every
query is answered out of them.

## Main statement

`Program.evaluate_isLeastModel`: what a successful evaluation returns is the
least model of the program, with the answers to its queries.
-/

namespace LeastModel

variable {digest : Digest}

/-! ## Models and derivations -/

namespace Program

/-- A family of tuples that has the facts and is closed under the rules. -/
structure IsModel (p : Program) (tuples : Bytes → Set Tuple) : Prop where
  facts : ∀ fact ∈ p.facts, fact.terms.map (·.value) ∈ tuples fact.name
  rules : ∀ rule ∈ p.rules, rule.SatisfiedBy tuples

/-- A tuple with a finite derivation from the facts. -/
inductive Derives (p : Program) : Bytes → Tuple → Prop
  | fact {fact : Atom} (hfact : fact ∈ p.facts) : Derives p fact.name (fact.terms.map (·.value))
  | rule {rule : Rule} (hrule : rule ∈ p.rules) (σ : Bytes → Bytes)
      (hbody : ∀ atom ∈ rule.body, Derives p atom.name (atom.ground σ)) :
      Derives p rule.head.name (rule.head.ground σ)

/-- What can be derived is in every model. -/
theorem Derives.mem
    {p : Program} {name : Bytes} {t : Tuple} (h : p.Derives name t)
    {tuples : Bytes → Set Tuple} (hmodel : p.IsModel tuples) : t ∈ tuples name := by
  induction h with
  | fact hfact => exact hmodel.facts _ hfact
  | rule hrule σ _ ih => exact hmodel.rules _ hrule σ ih

theorem isModel_derives (p : Program) : p.IsModel fun name => {t | p.Derives name t} where
  facts := fun _ hfact => .fact hfact
  rules := fun _ hrule σ hfires => .rule hrule σ hfires

/-- The least model is what can be derived. -/
theorem derives_iff_of_isLeast
    {p : Program} {tuples : Bytes → Set Tuple} (h : IsLeast {tuples | p.IsModel tuples} tuples)
    (name : Bytes) (t : Tuple) : p.Derives name t ↔ t ∈ tuples name :=
  ⟨fun hderives => hderives.mem h.1, fun ht => h.2 p.isModel_derives name ht⟩

end Program

/-! ## Answers -/

namespace Answer

/-- The answer to a query has one attribute per variable of the query, and the
values of the assignments under which the query stands for one of the tuples. -/
structure Solves (answer : Answer digest) (query : Atom) (tuples : Bytes → Set Tuple) :
    Prop where
  query_eq : answer.query = query
  schema_eq : answer.relation.schema = query.identifiers
  nodup : answer.relation.tuples.Nodup
  mem_iff : ∀ t, t ∈ answer.relation.tuples ↔
    ∃ σ : Bytes → Bytes, t = query.identifiers.map σ ∧ query.ground σ ∈ tuples query.name

end Answer

namespace Quiet

theorem answerQueries_cons_eq_ok_iff
    {db : Database digest} {query : Atom} {queries : List Atom} {answers : List (Answer digest)} :
    answerQueries db (query :: queries) = .ok answers ↔
      ∃ relation more, db.query query = .ok relation ∧ answerQueries db queries = .ok more ∧
        answers = ⟨query, relation⟩ :: more := by
  rw [answerQueries, bind_eq_ok_iff]
  constructor
  · rintro ⟨relation, hrelation, h⟩
    obtain ⟨more, hmore, h⟩ := bind_eq_ok_iff.mp h
    exact ⟨relation, more, mapError_eq_ok_iff.mp hrelation, hmore, (Except.ok.inj h).symm⟩
  · rintro ⟨relation, more, hrelation, hmore, rfl⟩
    exact ⟨relation, mapError_eq_ok_iff.mpr hrelation, bind_eq_ok_iff.mpr ⟨more, hmore, rfl⟩⟩

theorem solves_of_query
    {db : Database digest} (hdb : db.WellFormed) {query : Atom} (hplain : query.Plain)
    {relation : Relation digest} (h : db.query query = .ok relation) :
    (⟨query, relation⟩ : Answer digest).Solves query db.model := by
  obtain ⟨hwell, hschema, hholds⟩ := Database.query_spec hdb h
  have hnodup : relation.schema.Nodup := hschema ▸ query.nodup_openNames
  constructor
  case query_eq => rfl
  case schema_eq => exact hschema.trans hplain.openNames_eq
  case nodup => exact hwell.set.nodup
  case mem_iff =>
    intro t
    rw [hwell.mem_iff_holds hnodup, hschema, hplain.openNames_eq]
    simp only [hholds]

/-- Queries are answered one by one, each out of the whole database. -/
theorem solves_of_answerQueries
    {db : Database digest} (hdb : db.WellFormed) {queries : List Atom}
    (hplain : ∀ query ∈ queries, query.Plain) {answers : List (Answer digest)}
    (h : answerQueries db queries = .ok answers) :
    List.Forall₂ (fun answer query => answer.Solves query db.model) answers queries := by
  induction queries generalizing answers with
  | nil =>
      cases Except.ok.inj h
      exact .nil
  | cons query queries ih =>
      obtain ⟨hquery, hqueries⟩ := List.forall_mem_cons.mp hplain
      obtain ⟨relation, more, hrelation, hmore, rfl⟩ := answerQueries_cons_eq_ok_iff.mp h
      exact .cons (solves_of_query hdb hquery hrelation) (ih hqueries hmore)

/-! ## Evaluation -/

/-- Groups of the plan take the facts to the least model. -/
theorem isLeast_of_evaluateGroups
    {options : Options} {p : Program} (hbodies : ∀ rule ∈ p.rules, rule.body ≠ [])
    {db last : Database digest} (hload : Database.load p = .ok db) {counts : List GroupStats}
    (h : evaluateGroups options (Plan.ofRules p.rules).groups db = .ok (counts, last)) :
    last.WellFormed ∧ IsLeast {tuples | p.IsModel tuples} last.model := by
  have hgroups := Plan.forall_mem_groups.mpr hbodies
  obtain ⟨hdb, hfacts⟩ := Database.load_spec hload
  have hadvances := advances_of_evaluateGroups hgroups hdb h
  have hsatisfied := satisfiedBy_of_evaluateGroups hgroups
    (fun group hgroup hrecursive reader hreader atom hatom writer hwriter =>
      Plan.reads_ne_of_not_recursive hgroup hrecursive hreader hwriter hatom)
    (Plan.groups_pairwise_reads p.rules) hdb h
  refine ⟨hadvances.wellFormed, ⟨?_, ?_⟩, ?_⟩
  · intro fact hfact
    exact hadvances.grows _ ((hfacts _ _).mpr ⟨fact, hfact, rfl, rfl⟩)
  · exact Plan.forall_mem_groups.mp hsatisfied
  · intro tuples hmodel
    refine hadvances.sound tuples ?_ ?_
    · intro rule hrule
      obtain ⟨group, hgroup, hmem⟩ := List.mem_flatMap.mp hrule
      exact hmodel.rules rule (Plan.mem_of_mem_group hgroup hmem)
    · intro name t ht
      obtain ⟨fact, hfact, rfl, rfl⟩ := (hfacts name t).mp ht
      exact hmodel.facts fact hfact

end Quiet

namespace Program

/-- What an evaluation returns is the least model of the program. -/
structure IsLeastModel (p : Program) (result : Result digest) : Prop where
  /-- The tuples are the least family that has the facts and is closed under the rules. -/
  least : IsLeast {tuples | p.IsModel tuples} result.database.model
  /-- Relation by relation, there is exactly what has a finite derivation. -/
  mem_iff_derives : ∀ r ∈ result.database.relations, ∀ t, t ∈ r.tuples ↔ p.Derives r.name t
  /-- Every query is answered out of these tuples, in the order of the queries. -/
  answers : List.Forall₂ (fun answer query => answer.Solves query result.database.model)
    result.answers p.queries

/-- A successful evaluation returns the least model, with any options. -/
theorem evaluate_isLeastModel
    {options : Options} {p : Program} (hbodies : ∀ rule ∈ p.rules, rule.body ≠ [])
    (hqueries : ∀ query ∈ p.queries, query.Plain) {result : Result digest}
    (h : p.evaluate options = .ok result) : p.IsLeastModel result := by
  rw [evaluate_eq_quiet] at h
  obtain ⟨db, counts, last, answers, hload, hgroups, hanswers, rfl⟩ := Quiet.exists_of_evaluate h
  obtain ⟨hlast, hleast⟩ := Quiet.isLeast_of_evaluateGroups hbodies hload hgroups
  refine ⟨hleast, ?_, Quiet.solves_of_answerQueries hlast hqueries hanswers⟩
  intro r hr t
  rw [derives_iff_of_isLeast hleast, Database.mem_model]
  constructor
  · exact fun ht => ⟨r, hlast.mem_relations_iff.mp hr, ht⟩
  · rintro ⟨s, hs, ht⟩
    cases (hlast.mem_relations_iff.mp hr).symm.trans hs
    exact ht

/-- Reachability in a graph of two nodes, asked for with a repeated variable and
with a constant. -/
def reachability : Program where
  schemes := [⟨"edge", [.identifier "a", .identifier "b"]⟩,
    ⟨"path", [.identifier "a", .identifier "b"]⟩]
  facts := [⟨"edge", [.constant "1", .constant "2"]⟩, ⟨"edge", [.constant "2", .constant "1"]⟩]
  rules := [
    ⟨⟨"path", [.identifier "x", .identifier "y"]⟩, [⟨"edge", [.identifier "x", .identifier "y"]⟩]⟩,
    ⟨⟨"path", [.identifier "x", .identifier "z"]⟩,
      [⟨"path", [.identifier "x", .identifier "y"]⟩, ⟨"edge", [.identifier "y", .identifier "z"]⟩]⟩]
  queries := [⟨"path", [.identifier "x", .identifier "x"]⟩,
    ⟨"path", [.constant "1", .identifier "y"]⟩]

theorem evaluate_reachability :
    (∀ rule ∈ reachability.rules, rule.body ≠ []) ∧
      (∀ query ∈ reachability.queries, query.Plain) ∧
      ∃ result : Result Xxh64.digest, reachability.evaluate {} = .ok result ∧
        result.answers.map (·.relation.tuples) =
          ([[["1"], ["2"]], [["2"], ["1"]]] : List (List Tuple)) ∧
        reachability.IsLeastModel result := by
  have hbodies : ∀ rule ∈ reachability.rules, rule.body ≠ [] := by decide
  have hqueries : ∀ query ∈ reachability.queries, query.Plain := by
    unfold Atom.Plain
    decide
  have hrun : (reachability.evaluate {} : Except Fault (Result Xxh64.digest)).toOption.map
      (fun result => result.answers.map (·.relation.tuples)) =
        some ([[["1"], ["2"]], [["2"], ["1"]]] : List (List Tuple)) := by
    decide +kernel
  refine ⟨hbodies, hqueries, ?_⟩
  cases hresult : (reachability.evaluate {} : Except Fault (Result Xxh64.digest)) with
  | error fault =>
      rw [hresult] at hrun
      cases hrun
  | ok result =>
      rw [hresult] at hrun
      exact ⟨result, rfl, Option.some.inj hrun, evaluate_isLeastModel hbodies hqueries hresult⟩

end Program

end LeastModel
