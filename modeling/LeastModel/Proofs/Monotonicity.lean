import LeastModel.Proofs.Loading
import LeastModel.Proofs.MinimalModel
import LeastModel.Proofs.RuleChecks

/-!
# Larger programs and their results

Whether a program can be evaluated depends on each of its facts, rules and
queries by itself, and on the schemes (`evaluate_ok_iff`). So a program that
states less than another one can be evaluated when the other can, and its least
model is the smaller one: runs of the two need not have a step in common, since
facts and rules may stand in any order, and as often as one likes.

## Main statement

`Program.evaluate_monotone`: results grow with what a program states, and are
the same for programs that state the same.
-/

namespace LeastModel

variable {digest : Digest}

/-! ## Programs that state less -/

/-- The rules have the same head, and the same atoms in their bodies. -/
structure Rule.SameAs (rule rule' : Rule) : Prop where
  head_eq : rule.head = rule'.head
  body_iff : ∀ atom, atom ∈ rule.body ↔ atom ∈ rule'.body

/-- All that `p` states is stated in `p'`, in any order and however often. -/
structure Program.Within (p p' : Program) : Prop where
  schemes_eq : p.schemes = p'.schemes
  queries_eq : p.queries = p'.queries
  facts : ∀ fact ∈ p.facts, fact ∈ p'.facts
  rules : ∀ rule ∈ p.rules, ∃ rule' ∈ p'.rules, rule.SameAs rule'

namespace Rule.SameAs

variable {rule rule' : Rule}

theorem plain (h : rule.SameAs rule') (hplain : rule'.Plain) : rule.Plain := by
  constructor
  · rw [h.head_eq]
    exact hplain.1
  · intro atom hatom
    exact hplain.2 atom ((h.body_iff atom).mp hatom)

theorem body_ne_nil (h : rule.SameAs rule') (hbody : rule'.body ≠ []) : rule.body ≠ [] := by
  obtain ⟨atom, hatom⟩ := List.exists_mem_of_ne_nil _ hbody
  exact List.ne_nil_of_mem ((h.body_iff atom).mpr hatom)

theorem bound (h : rule.SameAs rule') (hbound : rule'.Bound) : rule.Bound := by
  intro t ht
  rw [h.head_eq] at ht
  obtain ⟨hopen, atom, hatom, hname⟩ := hbound t ht
  exact ⟨hopen, atom, (h.body_iff atom).mpr hatom, hname⟩

theorem admits (h : rule.SameAs rule') {db : Database digest} (hadmits : db.Admits rule') :
    db.Admits rule := by
  constructor
  case head =>
    rw [h.head_eq]
    exact hadmits.head
  case body => exact fun atom hatom => hadmits.body atom ((h.body_iff atom).mp hatom)
  case bound => exact h.bound hadmits.bound

theorem satisfiedBy (h : rule.SameAs rule') {tuples : Bytes → Set Tuple}
    (hsatisfied : rule'.SatisfiedBy tuples) : rule.SatisfiedBy tuples := by
  intro σ hfires
  rw [h.head_eq]
  exact hsatisfied σ fun atom hatom => hfires atom ((h.body_iff atom).mpr hatom)

end Rule.SameAs

theorem Program.Within.isModel {p p' : Program} (h : p.Within p') {tuples : Bytes → Set Tuple}
    (hmodel : p'.IsModel tuples) : p.IsModel tuples := by
  constructor
  · exact fun fact hfact => hmodel.facts fact (h.facts fact hfact)
  · intro rule hrule
    obtain ⟨rule', hrule', hsame⟩ := h.rules rule hrule
    exact hsame.satisfiedBy (hmodel.rules rule' hrule')

/-! ## When programs can be evaluated -/

namespace Quiet

theorem answerQueries_ok_iff {db : Database digest} (hdb : db.WellFormed) (queries : List Atom) :
    (∃ answers, answerQueries db queries = .ok answers) ↔ ∀ query ∈ queries, db.Fits query := by
  induction queries with
  | nil => exact ⟨fun _ => by simp, fun _ => ⟨[], rfl⟩⟩
  | cons query queries ih =>
      rw [List.forall_mem_cons, ← ih, ← Database.query_ok_iff hdb]
      constructor
      · rintro ⟨answers, h⟩
        obtain ⟨relation, more, hrelation, hmore, -⟩ := answerQueries_cons_eq_ok_iff.mp h
        exact ⟨⟨relation, hrelation⟩, more, hmore⟩
      · rintro ⟨⟨relation, hrelation⟩, more, hmore⟩
        exact ⟨_, answerQueries_cons_eq_ok_iff.mpr ⟨relation, more, hrelation, hmore, rfl⟩⟩

end Quiet

namespace Program

/-- Each fact, each rule and each query by itself fits the declared relations. -/
structure FitsInto (p : Program) (declared : Database digest) : Prop where
  facts : ∀ fact ∈ p.facts, fact.isGround = true ∧ declared.Fits fact
  rules : ∀ rule ∈ p.rules, declared.Admits rule
  queries : ∀ query ∈ p.queries, declared.Fits query

theorem Within.fitsInto {p p' : Program} (h : p.Within p') {declared : Database digest}
    (hfits : p'.FitsInto declared) : p.FitsInto declared := by
  constructor
  case facts => exact fun fact hfact => hfits.facts fact (h.facts fact hfact)
  case rules =>
    intro rule hrule
    obtain ⟨rule', hrule', hsame⟩ := h.rules rule hrule
    exact hsame.admits (hfits.rules rule' hrule')
  case queries =>
    rw [h.queries_eq]
    exact hfits.queries

end Program

namespace Quiet

section

variable {p : Program} (hplain : ∀ rule ∈ p.rules, rule.Plain)
  (hbodies : ∀ rule ∈ p.rules, rule.body ≠ []) {options : Options}
  (hoptions : options.maxPasses ≤ 0)

include hbodies hoptions

theorem fitsInto_of_evaluate {result : Result digest} (h : evaluate options p = .ok result) :
    ∃ declared : Database digest, Database.empty.declareAll p.schemes = .ok declared ∧
      p.FitsInto declared ∧ result.database.signature = declared.signature := by
  obtain ⟨db, counts, last, answers, hload, hgroups, hanswers, rfl⟩ := exists_of_evaluate h
  obtain ⟨declared, hdeclared, hfacts⟩ := bind_eq_ok_iff.mp hload
  have hwell := (Database.declareAll_spec Database.wellFormed_empty hdeclared).1
  have hdb := (Database.load_spec hload).1
  have hbodies' := Plan.forall_mem_groups.mpr hbodies
  have hadvances := advances_of_evaluateGroups hbodies' hdb hgroups
  have hloaded : db.signature = declared.signature := Database.signature_addFacts hwell hfacts
  have hlast : last.signature = declared.signature := hadvances.signature_eq.trans hloaded
  refine ⟨declared, hdeclared, ?_, hlast⟩
  constructor
  case facts => exact (Database.addFacts_ok_iff hwell p.facts).mp ⟨db, hfacts⟩
  case rules =>
    have hadmits := (evaluateGroups_ok_iff hoptions hbodies' hdb).mp ⟨_, hgroups⟩
    intro rule hrule
    have hrule := Plan.forall_mem_groups.mp hadmits rule hrule
    exact hrule.of_signature hdb hwell hloaded.symm
  case queries =>
    intro query hquery
    have hfits := (answerQueries_ok_iff hadvances.wellFormed p.queries).mp ⟨answers, hanswers⟩
    exact (hfits query hquery).of_signature hadvances.wellFormed hwell hlast.symm

include hplain

theorem evaluate_of_fitsInto {declared : Database digest}
    (hdeclared : Database.empty.declareAll p.schemes = .ok declared)
    (hfits : p.FitsInto declared) : ∃ result : Result digest, evaluate options p = .ok result := by
  have hwell := (Database.declareAll_spec Database.wellFormed_empty hdeclared).1
  obtain ⟨db, hfacts⟩ := (Database.addFacts_ok_iff hwell p.facts).mpr hfits.facts
  have hload : Database.load p = .ok db := bind_eq_ok_iff.mpr ⟨declared, hdeclared, hfacts⟩
  have hdb := (Database.load_spec hload).1
  have hloaded : db.signature = declared.signature := Database.signature_addFacts hwell hfacts
  have hadmits : ∀ rule ∈ p.rules, db.Admits rule := fun rule hrule =>
    (hfits.rules rule hrule).of_signature hwell hdb hloaded
  have hvalid := (Database.validate_eq_ok_iff hplain).mpr hadmits
  obtain ⟨⟨counts, last⟩, hgroups⟩ :=
    (validate_iff_evaluateGroups hplain hbodies hdb hoptions).mp hvalid
  have hadvances := advances_of_evaluateGroups (Plan.forall_mem_groups.mpr hbodies) hdb hgroups
  obtain ⟨answers, hanswers⟩ := (answerQueries_ok_iff hadvances.wellFormed p.queries).mpr
    fun query hquery => (hfits.queries query hquery).of_signature hwell hadvances.wellFormed
      (hadvances.signature_eq.trans hloaded)
  refine ⟨⟨answers, counts, Plan.ofRules p.rules, last⟩, ?_⟩
  rw [evaluate_of_valid hload hvalid, hgroups, ok_bind, hanswers, ok_bind]

/-- Without a bound on the passes, a program is evaluated when all that it states
fits the relations that it declares. -/
theorem evaluate_ok_iff :
    (∃ result : Result digest, evaluate options p = .ok result) ↔
      ∃ declared : Database digest, Database.empty.declareAll p.schemes = .ok declared ∧
        p.FitsInto declared := by
  constructor
  · rintro ⟨result, h⟩
    obtain ⟨declared, hdeclared, hfits, -⟩ := fitsInto_of_evaluate hbodies hoptions h
    exact ⟨declared, hdeclared, hfits⟩
  · rintro ⟨declared, hdeclared, hfits⟩
    exact evaluate_of_fitsInto hplain hbodies hoptions hdeclared hfits

end

end Quiet

/-! ## Results that have less -/

/-- Relation by relation and answer by answer, all tuples of `result` are in
`result'`. -/
structure Result.Within (result result' : Result digest) : Prop where
  relations : List.Forall₂
    (fun r r' => r.name = r'.name ∧ r.schema = r'.schema ∧ ∀ t ∈ r.tuples, t ∈ r'.tuples)
    result.database.relations result'.database.relations
  answers : List.Forall₂
    (fun a a' => a.query = a'.query ∧ a.relation.schema = a'.relation.schema ∧
      ∀ t ∈ a.relation.tuples, t ∈ a'.relation.tuples)
    result.answers result'.answers

theorem Database.forall₂_relations {db db' : Database digest} (hdb : db.WellFormed)
    (hdb' : db'.WellFormed) (hsignature : db.signature = db'.signature)
    (hmodel : ∀ name, db.model name ⊆ db'.model name) :
    List.Forall₂ (fun r r' : Relation digest =>
        r.name = r'.name ∧ r.schema = r'.schema ∧ ∀ t ∈ r.tuples, t ∈ r'.tuples)
      db.relations db'.relations := by
  apply (forall₂_of_signature hsignature).imp
  rintro r r' ⟨hr, hr', hname, hschema⟩
  refine ⟨hname, hschema, ?_⟩
  intro t ht
  obtain ⟨s, hs, hts⟩ := hmodel r.name ⟨r, hdb.mem_relations_iff.mp hr, ht⟩
  have hfound := hdb'.mem_relations_iff.mp hr'
  rw [← hname, hs] at hfound
  exact Option.some.inj hfound ▸ hts

theorem Answer.forall₂_of_solves {tuples tuples' : Bytes → Set Tuple}
    (h : ∀ name, tuples name ⊆ tuples' name) {queries : List Atom}
    {answers answers' : List (Answer digest)}
    (hanswers : List.Forall₂ (fun answer query => answer.Solves query tuples) answers queries)
    (hanswers' : List.Forall₂ (fun answer query => answer.Solves query tuples') answers' queries) :
    List.Forall₂ (fun a a' : Answer digest =>
      a.query = a'.query ∧ a.relation.schema = a'.relation.schema ∧
        ∀ t ∈ a.relation.tuples, t ∈ a'.relation.tuples) answers answers' := by
  induction hanswers generalizing answers' with
  | nil =>
      cases hanswers'
      exact .nil
  | cons hsolves _ ih =>
      cases hanswers' with
      | cons hsolves' hrest =>
          refine .cons ⟨?_, ?_, ?_⟩ (ih hrest)
          · rw [hsolves.query_eq, hsolves'.query_eq]
          · rw [hsolves.schema_eq, hsolves'.schema_eq]
          · intro t ht
            obtain ⟨σ, rfl, hσ⟩ := (hsolves.mem_iff t).mp ht
            exact (hsolves'.mem_iff _).mpr ⟨σ, rfl, h _ hσ⟩

namespace Program

theorem Within.plain {p p' : Program} (h : p.Within p') (hplain : ∀ rule ∈ p'.rules, rule.Plain) :
    ∀ rule ∈ p.rules, rule.Plain := by
  intro rule hrule
  obtain ⟨rule', hrule', hsame⟩ := h.rules rule hrule
  exact hsame.plain (hplain rule' hrule')

theorem Within.body_ne_nil {p p' : Program} (h : p.Within p')
    (hbodies : ∀ rule ∈ p'.rules, rule.body ≠ []) : ∀ rule ∈ p.rules, rule.body ≠ [] := by
  intro rule hrule
  obtain ⟨rule', hrule', hsame⟩ := h.rules rule hrule
  exact hsame.body_ne_nil (hbodies rule' hrule')

theorem Within.evaluates {p p' : Program} (h : p.Within p')
    (hplain : ∀ rule ∈ p'.rules, rule.Plain) (hbodies : ∀ rule ∈ p'.rules, rule.body ≠ [])
    {options options' : Options} (hoptions : options.maxPasses ≤ 0)
    (hoptions' : options'.maxPasses ≤ 0)
    (hevaluates : ∃ result' : Result digest, Quiet.evaluate options' p' = .ok result') :
    ∃ result : Result digest, Quiet.evaluate options p = .ok result := by
  rw [Quiet.evaluate_ok_iff hplain hbodies hoptions'] at hevaluates
  rw [Quiet.evaluate_ok_iff (h.plain hplain) (h.body_ne_nil hbodies) hoptions, h.schemes_eq]
  obtain ⟨declared, hdeclared, hfits⟩ := hevaluates
  exact ⟨declared, hdeclared, h.fitsInto hfits⟩

/-- Of two programs that are evaluated, the one that states less has less. -/
theorem Within.result {p p' : Program} (h : p.Within p')
    (hbodies : ∀ rule ∈ p.rules, rule.body ≠ []) (hbodies' : ∀ rule ∈ p'.rules, rule.body ≠ [])
    (hqueries : ∀ query ∈ p'.queries, query.Plain) {options options' : Options}
    (hoptions : options.maxPasses ≤ 0) (hoptions' : options'.maxPasses ≤ 0)
    {result result' : Result digest} (hresult : Quiet.evaluate options p = .ok result)
    (hresult' : Quiet.evaluate options' p' = .ok result') : result.Within result' := by
  obtain ⟨declared, hdeclared, -, hsignature⟩ :=
    Quiet.fitsInto_of_evaluate hbodies hoptions hresult
  obtain ⟨declared', hdeclared', -, hsignature'⟩ :=
    Quiet.fitsInto_of_evaluate hbodies' hoptions' hresult'
  have hsame : declared = declared' := by
    rw [h.schemes_eq, hdeclared'] at hdeclared
    exact (Except.ok.inj hdeclared).symm
  obtain ⟨db, counts, last, answers, hload, hgroups, hanswers, rfl⟩ :=
    Quiet.exists_of_evaluate hresult
  obtain ⟨db', counts', last', answers', hload', hgroups', hanswers', rfl⟩ :=
    Quiet.exists_of_evaluate hresult'
  obtain ⟨hlast, hleast⟩ := Quiet.isLeast_of_evaluateGroups hbodies hload hgroups
  obtain ⟨hlast', hleast'⟩ := Quiet.isLeast_of_evaluateGroups hbodies' hload' hgroups'
  -- The runs have nothing in common but that both end with least models.
  have hmodel : ∀ name, last.model name ⊆ last'.model name := hleast.2 (h.isModel hleast'.1)
  rw [h.queries_eq] at hanswers
  constructor
  · apply Database.forall₂_relations hlast hlast' ?_ hmodel
    rw [hsignature, hsame, ← hsignature']
  · exact Answer.forall₂_of_solves hmodel (Quiet.solves_of_answerQueries hlast hqueries hanswers)
      (Quiet.solves_of_answerQueries hlast' hqueries hanswers')

/-- Results grow with what a program states. Where the larger program can be
evaluated the smaller one can, and has no other tuples. Programs that state the
same, in whatever order and however often, are evaluated alike. -/
theorem evaluate_monotone {p p' : Program} (h : p.Within p')
    (hplain : ∀ rule ∈ p'.rules, rule.Plain) (hbodies : ∀ rule ∈ p'.rules, rule.body ≠ [])
    (hqueries : ∀ query ∈ p'.queries, query.Plain) {options options' : Options}
    (hoptions : options.maxPasses ≤ 0) (hoptions' : options'.maxPasses ≤ 0) :
    (∀ result' : Result digest, p'.evaluate options' = .ok result' →
      ∃ result : Result digest, p.evaluate options = .ok result ∧ result.Within result') ∧
    (p'.Within p →
      ((∃ result : Result digest, p.evaluate options = .ok result) ↔
        ∃ result' : Result digest, p'.evaluate options' = .ok result') ∧
      ∀ result result' : Result digest, p.evaluate options = .ok result →
        p'.evaluate options' = .ok result' → result.Within result' ∧ result'.Within result) := by
  simp only [evaluate_eq_quiet]
  have hplain' := h.plain hplain
  have hbodies' := h.body_ne_nil hbodies
  have hqueries' : ∀ query ∈ p.queries, query.Plain := h.queries_eq ▸ hqueries
  constructor
  · intro result' hresult'
    obtain ⟨result, hresult⟩ := h.evaluates hplain hbodies hoptions hoptions' ⟨result', hresult'⟩
    exact ⟨result, hresult,
      h.result hbodies' hbodies hqueries hoptions hoptions' hresult hresult'⟩
  · intro hback
    refine ⟨⟨?_, ?_⟩, ?_⟩
    · exact hback.evaluates hplain' hbodies' hoptions' hoptions
    · exact h.evaluates hplain hbodies hoptions hoptions'
    · intro result result' hresult hresult'
      exact ⟨h.result hbodies' hbodies hqueries hoptions hoptions' hresult hresult',
        hback.result hbodies hbodies' hqueries' hoptions' hoptions hresult' hresult⟩

/-- Facts, rules and body atoms in the opposite order, and then all body atoms and
facts once more. -/
def reversed (p : Program) : Program where
  schemes := p.schemes
  facts := p.facts.reverse ++ p.facts
  rules := p.rules.reverse.map fun rule => ⟨rule.head, rule.body.reverse ++ rule.body⟩
  queries := p.queries

theorem evaluate_monotone_reversed :
    let p : Program := {
      schemes := [⟨"edge", [.identifier "a", .identifier "b"]⟩]
      facts := [⟨"edge", [.constant "1", .constant "2"]⟩, ⟨"edge", [.constant "2", .constant "3"]⟩]
      rules := [⟨⟨"edge", [.identifier "x", .identifier "z"]⟩,
        [⟨"edge", [.identifier "x", .identifier "y"]⟩,
          ⟨"edge", [.identifier "y", .identifier "z"]⟩]⟩]
      queries := [⟨"edge", [.constant "1", .identifier "y"]⟩] }
    p.Within p.reversed ∧ p.reversed.Within p ∧
      ∃ result result' : Result Xxh64.digest, p.evaluate {} = .ok result ∧
        p.reversed.evaluate {} = .ok result' ∧ result.Within result' ∧ result'.Within result := by
  intro p
  have hwithin : p.Within p.reversed := by
    refine ⟨rfl, rfl, ?_, ?_⟩
    · exact fun fact hfact => List.mem_append_right _ hfact
    · intro rule hrule
      have hmem := List.mem_map_of_mem (f := fun rule : Rule =>
        (⟨rule.head, rule.body.reverse ++ rule.body⟩ : Rule)) (List.mem_reverse.mpr hrule)
      exact ⟨_, hmem, rfl, by simp⟩
  have hback : p.reversed.Within p := by
    refine ⟨rfl, rfl, by simp [reversed], ?_⟩
    intro rule hrule
    obtain ⟨rule', hrule', rfl⟩ := List.mem_map.mp hrule
    exact ⟨rule', List.mem_reverse.mp hrule', rfl, by simp⟩
  have hplain : ∀ rule ∈ p.reversed.rules, rule.Plain := by
    unfold Rule.Plain Atom.Plain
    decide
  have hbodies : ∀ rule ∈ p.reversed.rules, rule.body ≠ [] := by decide
  have hqueries : ∀ query ∈ p.reversed.queries, query.Plain := by
    unfold Atom.Plain
    decide
  have hoptions : ({} : Options).maxPasses ≤ 0 := le_rfl
  have hmonotone := @evaluate_monotone Xxh64.digest _ _ hwithin hplain hbodies hqueries {} {}
    hoptions hoptions
  have hrun : (p.reversed.evaluate {} : Except Fault (Result Xxh64.digest)).isOk = true := by
    decide +kernel
  cases hresult' : (p.reversed.evaluate {} : Except Fault (Result Xxh64.digest)) with
  | error fault =>
      rw [hresult'] at hrun
      cases hrun
  | ok result' =>
      obtain ⟨result, hresult, hless⟩ := hmonotone.1 result' hresult'
      exact ⟨hwithin, hback, result, result', hresult, rfl, hless,
        ((hmonotone.2 hback).2 result result' hresult hresult').2⟩

end Program

end LeastModel
