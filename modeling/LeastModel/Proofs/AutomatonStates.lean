import LeastModel.Proofs.Grammar

/-!
# What the states of the automaton stand for

In every state the automaton has kept all that it has read: `State.Spelled` says
which lexemes a state stands for, and a step adds the lexeme of its token
(`spelled_of_step`). So a program that is read has the lexemes of the tokens
that were consumed (`lexemes_of_run`).
-/

namespace LeastModel

open Lexeme (mark commaSeparated)

/-- Lists of lexemes with a comma after each. -/
def Lexeme.commaTerminated (items : List (List Lexeme)) : List Lexeme :=
  items.flatMap (· ++ [mark .comma])

open Lexeme (commaTerminated)

theorem Lexeme.commaSeparated_concat (items : List (List Lexeme)) (item : List Lexeme) :
    commaSeparated (items ++ [item]) = commaTerminated items ++ item :=
  List.intercalate_concat [mark .comma] items item

theorem Lexeme.commaTerminated_eq {items : List (List Lexeme)} (h : items ≠ []) :
    commaTerminated items = commaSeparated items ++ [mark .comma] := by
  rw [← List.dropLast_concat_getLast h, commaSeparated_concat]
  simp [commaTerminated]

namespace Program

/-- The lexemes of the entries of a section. -/
def entryLexemes (p : Program) : Parser.Section → List Lexeme
  | .schemes => p.schemes.flatMap (·.lexemes)
  | .facts => p.facts.flatMap (·.factLexemes)
  | .rules => p.rules.flatMap (·.lexemes)
  | .queries => p.queries.flatMap (·.queryLexemes)

/-- The lexemes of a section with its title. -/
def titledLexemes (p : Program) (sec : Parser.Section) : List Lexeme :=
  [mark sec.keyword, mark .colon] ++ p.entryLexemes sec

/-- The lexemes of the sections before the given one. -/
def lexemesBefore (p : Program) : Parser.Section → List Lexeme
  | .schemes => []
  | .facts => p.titledLexemes .schemes
  | .rules => p.titledLexemes .schemes ++ p.titledLexemes .facts
  | .queries => p.titledLexemes .schemes ++ p.titledLexemes .facts ++ p.titledLexemes .rules

def lexemesThrough (p : Program) (sec : Parser.Section) : List Lexeme :=
  p.lexemesBefore sec ++ p.titledLexemes sec

theorem lexemes_eq_through (p : Program) :
    p.lexemes = p.lexemesThrough .queries ++ [mark .eof] := by
  simp [lexemes, lexemesThrough, lexemesBefore, titledLexemes, entryLexemes,
    Parser.Section.keyword]

/-- Entries have the shape that the grammar asks for, however many there are. -/
structure Shaped (p : Program) : Prop where
  schemes : ∀ a ∈ p.schemes, a.Over [.identifier]
  facts : ∀ a ∈ p.facts, a.Over [.constant]
  rules : ∀ r ∈ p.rules, r.Grammatical
  queries : ∀ a ∈ p.queries, a.Over [.identifier, .constant]

/-- The sections before the given one are complete and those after it are empty. -/
def OpenAt (p : Program) : Parser.Section → Prop
  | .schemes => p.facts = [] ∧ p.rules = [] ∧ p.queries = []
  | .facts => p.schemes ≠ [] ∧ p.rules = [] ∧ p.queries = []
  | .rules => p.schemes ≠ [] ∧ p.queries = []
  | .queries => p.schemes ≠ []

end Program

namespace Parser

/-- The section in which an atom of a given role stands. -/
def Role.home : Role → Section
  | .scheme => .schemes
  | .fact => .facts
  | .head | .body => .rules
  | .query => .queries

namespace State

/-! ## What a state stands for -/

/-- The part of a rule that stands before the next atom of its body. -/
def ruleLexemes (s : State) : Role → List Lexeme
  | .body => s.rule.head.lexemes ++ [mark .colonDash] ++
      commaTerminated (s.rule.body.map (·.lexemes))
  | _ => []

/-- The lexemes before an atom of a given role, with what is known of them. -/
structure Before (s : State) (r : Role) (ws : List Lexeme) : Prop where
  shaped : s.program.Shaped
  openAt : s.program.OpenAt r.home
  head : r = .body → s.rule.head.Over [.identifier]
  body : r = .body → ∀ a ∈ s.rule.body, a.Over [.identifier, .constant]
  eq : ws = s.program.lexemesThrough r.home ++ s.ruleLexemes r

/-- The lexemes that have been read in a state, by what the state waits for. -/
def Spelled (s : State) (ws : List Lexeme) : Prop :=
  match s.control with
  | .opening => s.program = .empty ∧ ws = []
  | .colon sec => s.program.Shaped ∧ s.program.OpenAt sec ∧ s.program.entryLexemes sec = [] ∧
      ws = s.program.lexemesBefore sec ++ [mark sec.keyword]
  | .schemeOrFacts => s.Before .scheme ws ∧ s.program.schemes ≠ []
  | .factOrRules => s.Before .fact ws
  | .ruleOrQueries => s.Before .head ws
  | .queryOrEnd => s.Before .query ws ∧ s.program.queries ≠ []
  | .name r => s.Before r ws
  | .leftParen r => ∃ us, s.Before r us ∧ s.atom.terms = [] ∧
      ws = us ++ [⟨.identifier, s.atom.name⟩]
  | .term r => ∃ us, s.Before r us ∧ (∀ t ∈ s.atom.terms, t.Among r.termKinds) ∧
      ws = us ++ [⟨.identifier, s.atom.name⟩, mark .leftParen] ++
        commaTerminated (s.atom.terms.map fun t => [t.lexeme])
  | .termOrRightParen r => ∃ us, s.Before r us ∧ s.atom.Over r.termKinds ∧
      ws = us ++ [⟨.identifier, s.atom.name⟩, mark .leftParen] ++
        commaSeparated (s.atom.terms.map fun t => [t.lexeme])
  | .mark r => ∃ us, s.Before r us ∧ s.atom.Over r.termKinds ∧ ws = us ++ s.atom.lexemes

/-! ## One step -/

/-- What is known before an atom does not depend on the atom or on the control. -/
theorem Before.congr {s s' : State} {r : Role} {ws : List Lexeme} (h : s.Before r ws)
    (hprogram : s'.program = s.program) (hrule : s'.rule = s.rule) : s'.Before r ws := by
  obtain ⟨hshaped, hopen, hhead, hbody, heq⟩ := h
  constructor
  · rwa [hprogram]
  · rwa [hprogram]
  · rwa [hrule]
  · rwa [hrule]
  · rw [heq, hprogram]
    cases r <;> simp [ruleLexemes, hrule]

theorem Before.named {s : State} {r : Role} {ws : List Lexeme} (h : s.Before r ws) {t : Token}
    (ht : t.kind = .identifier) : (s.named r t).Spelled (ws ++ [t.lexeme]) := by
  refine ⟨ws, h.congr rfl rfl, rfl, ?_⟩
  rw [Token.lexeme_eq_mk ht rfl]
  rfl

theorem spelled_enter {s : State} {sec : Section} (hshaped : s.program.Shaped)
    (hopen : s.program.OpenAt sec) (hnone : s.program.entryLexemes sec = []) :
    (s.enter sec).Spelled (s.program.lexemesBefore sec ++ [mark sec.keyword] ++ [mark .colon]) := by
  have heq : s.program.lexemesBefore sec ++ [mark sec.keyword] ++ [mark .colon] =
      s.program.lexemesThrough sec := by
    simp [Program.lexemesThrough, Program.titledLexemes, hnone]
  rw [heq]
  cases sec with
  | schemes => exact ⟨hshaped, hopen, by simp, by simp, by simp [ruleLexemes, enter, Role.home]⟩
  | facts => exact ⟨hshaped, hopen, by simp, by simp, by simp [ruleLexemes, enter, Role.home]⟩
  | rules => exact ⟨hshaped, hopen, by simp, by simp, by simp [ruleLexemes, enter, Role.home]⟩
  | queries => exact ⟨hshaped, hopen, by simp, by simp, by simp [ruleLexemes, enter, Role.home]⟩

end State

theorem termOf_among {t : Token} {r : Role} (h : t.kind ∈ r.termKinds) :
    (termOf t).Among r.termKinds ∧ (termOf t).lexeme = t.lexeme := by
  have hkind : t.kind = .identifier ∨ t.kind = .constant := by
    cases r <;> simp_all [Role.termKinds]
  rcases hkind with hkind | hkind
  · rw [hkind] at h
    have hterm : termOf t = .identifier t.value := by simp [termOf, hkind]
    rw [hterm, Token.lexeme_eq_mk hkind rfl]
    exact ⟨.inl ⟨rfl, h⟩, rfl⟩
  · rw [hkind] at h
    have hterm : termOf t = .constant t.value := by simp [termOf, hkind]
    rw [hterm, Token.lexeme_eq_mk hkind rfl]
    exact ⟨.inr ⟨rfl, h⟩, rfl⟩

namespace State

theorem spelled_closed {s : State} {r : Role} {us : List Lexeme} (h : s.Before r us)
    (hatom : s.atom.Over r.termKinds) : (s.closed r).Spelled (us ++ s.atom.lexemes) := by
  cases r with
  | scheme =>
      obtain ⟨hshaped, hopen, hhead, hbody, rfl⟩ := h
      refine ⟨⟨⟨?_, hshaped.facts, hshaped.rules, hshaped.queries⟩, hopen, hhead, hbody, ?_⟩, ?_⟩
      · exact List.forall_mem_append.mpr ⟨hshaped.schemes, List.forall_mem_singleton.mpr hatom⟩
      · simp [closed, Role.home, ruleLexemes, Program.lexemesThrough, Program.lexemesBefore,
          Program.titledLexemes, Program.entryLexemes]
      · simp [closed]
  | fact => exact ⟨us, h.congr rfl rfl, hatom, rfl⟩
  | head => exact ⟨us, h.congr rfl rfl, hatom, rfl⟩
  | body => exact ⟨us, h.congr rfl rfl, hatom, rfl⟩
  | query => exact ⟨us, h.congr rfl rfl, hatom, rfl⟩

theorem spelled_marked {s s' : State} {r : Role} {us : List Lexeme} (h : s.Before r us)
    (hatom : s.atom.Over r.termKinds) {k : TokenKind} (hstep : s.marked r k = .next s') :
    s'.Spelled (us ++ s.atom.lexemes ++ [mark k]) := by
  obtain ⟨hshaped, hopen, hhead, hbody, rfl⟩ := h
  unfold marked at hstep
  split at hstep
  · -- a fact is complete
    cases hstep
    refine ⟨⟨hshaped.schemes, ?_, hshaped.rules, hshaped.queries⟩, hopen, by simp, by simp, ?_⟩
    · exact List.forall_mem_append.mpr ⟨hshaped.facts, List.forall_mem_singleton.mpr hatom⟩
    · simp [Role.home, ruleLexemes, Program.lexemesThrough, Program.lexemesBefore,
        Program.titledLexemes, Program.entryLexemes, Atom.factLexemes]
  · -- the head of a rule is complete
    cases hstep
    refine ⟨hshaped, hopen, fun _ => hatom, by simp, ?_⟩
    simp [Role.home, ruleLexemes, commaTerminated]
  · -- another atom of a body follows
    cases hstep
    have hatoms := List.forall_mem_append.mpr ⟨hbody rfl, List.forall_mem_singleton.mpr hatom⟩
    refine ⟨hshaped, hopen, fun _ => hhead rfl, fun _ => hatoms, ?_⟩
    simp [Role.home, ruleLexemes, commaTerminated]
  · -- a rule is complete
    cases hstep
    have hatoms := List.forall_mem_append.mpr ⟨hbody rfl, List.forall_mem_singleton.mpr hatom⟩
    have hrule : Rule.Grammatical ⟨s.rule.head, s.rule.body ++ [s.atom]⟩ :=
      ⟨hhead rfl, by simp, hatoms⟩
    refine ⟨⟨hshaped.schemes, hshaped.facts, ?_, hshaped.queries⟩, hopen, by simp, by simp, ?_⟩
    · exact List.forall_mem_append.mpr ⟨hshaped.rules, List.forall_mem_singleton.mpr hrule⟩
    · simp [Role.home, ruleLexemes, Program.lexemesThrough, Program.lexemesBefore,
        Program.titledLexemes, Program.entryLexemes, Rule.lexemes, Lexeme.commaSeparated_concat]
  · -- a query is complete
    cases hstep
    refine ⟨⟨⟨hshaped.schemes, hshaped.facts, hshaped.rules, ?_⟩, hopen, by simp, by simp, ?_⟩, ?_⟩
    · exact List.forall_mem_append.mpr ⟨hshaped.queries, List.forall_mem_singleton.mpr hatom⟩
    · simp [Role.home, ruleLexemes, Program.lexemesThrough, Program.lexemesBefore,
        Program.titledLexemes, Program.entryLexemes, Atom.queryLexemes]
    · simp
  · cases hstep

theorem carriesText_of_marked {s s' : State} {r : Role} {k : TokenKind}
    (hstep : s.marked r k = .next s') : k.carriesText = false := by
  unfold marked at hstep
  split at hstep <;> first | rfl | cases hstep

/-- The next section is announced when the one before it is complete. -/
theorem Before.announce {s : State} {r : Role} {ws : List Lexeme} (h : s.Before r ws)
    (hr : r ≠ .body) (sec : Section) (hopen : s.program.OpenAt sec)
    (hnone : s.program.entryLexemes sec = [])
    (hbefore : s.program.lexemesBefore sec = s.program.lexemesThrough r.home) {t : Token}
    (ht : t.kind = sec.keyword) :
    ({ s with control := .colon sec } : State).Spelled (ws ++ [t.lexeme]) := by
  have hrule : s.ruleLexemes r = [] := by
    cases r <;> first | rfl | exact absurd rfl hr
  have hkeyword : t.lexeme = mark sec.keyword := by
    apply Token.lexeme_eq_mark ht
    cases sec <;> rfl
  refine ⟨h.shaped, hopen, hnone, ?_⟩
  rw [h.eq, hrule, hkeyword, hbefore, List.append_nil]

theorem spelled_initial : initial.Spelled [] := ⟨rfl, rfl⟩

/-- A step keeps what has been read and adds its token. -/
theorem spelled_of_step {s s' : State} {ws : List Lexeme} (h : s.Spelled ws) {t : Token}
    (hstep : s.step t = .next s') : s'.Spelled (ws ++ [t.lexeme]) := by
  rw [Spelled] at h
  rw [step] at hstep
  -- One case for each control; a token that is refused leads to no state at all.
  cases hcontrol : s.control with
  | opening =>
      simp only [hcontrol] at h hstep
      obtain ⟨hempty, rfl⟩ := h
      split at hstep
      · rename_i ht
        cases hstep
        have hshaped : s.program.Shaped := by
          rw [hempty]
          constructor <;> simp [Program.empty]
        rw [Token.lexeme_eq_mark ht rfl]
        refine ⟨hshaped, ?_, ?_, rfl⟩
        · simp [Program.OpenAt, hempty, Program.empty]
        · simp [Program.entryLexemes, hempty, Program.empty]
      · cases hstep
  | colon sec =>
      simp only [hcontrol] at h hstep
      obtain ⟨hshaped, hopen, hnone, rfl⟩ := h
      split at hstep
      · rename_i ht
        cases hstep
        rw [Token.lexeme_eq_mark ht rfl]
        exact spelled_enter hshaped hopen hnone
      · cases hstep
  | schemeOrFacts =>
      simp only [hcontrol] at h hstep
      obtain ⟨hbefore, hne⟩ := h
      split at hstep
      · rename_i ht
        cases hstep
        exact hbefore.named ht
      · split at hstep
        · rename_i ht
          cases hstep
          obtain ⟨hfacts, hrules, hqueries⟩ := hbefore.openAt
          refine hbefore.announce (by decide) .facts ⟨hne, hrules, hqueries⟩ ?_ rfl ht
          simp [Program.entryLexemes, hfacts]
        · cases hstep
  | factOrRules =>
      simp only [hcontrol] at h hstep
      split at hstep
      · rename_i ht
        cases hstep
        exact h.named ht
      · split at hstep
        · rename_i ht
          cases hstep
          obtain ⟨hne, hrules, hqueries⟩ := h.openAt
          refine h.announce (by decide) .rules ⟨hne, hqueries⟩ ?_ rfl ht
          simp [Program.entryLexemes, hrules]
        · cases hstep
  | ruleOrQueries =>
      simp only [hcontrol] at h hstep
      split at hstep
      · rename_i ht
        cases hstep
        exact h.named ht
      · split at hstep
        · rename_i ht
          cases hstep
          obtain ⟨hne, hqueries⟩ := h.openAt
          refine h.announce (by decide) .queries hne ?_ rfl ht
          simp [Program.entryLexemes, hqueries]
        · cases hstep
  | queryOrEnd =>
      simp only [hcontrol] at h hstep
      split at hstep
      · rename_i ht
        cases hstep
        exact h.1.named ht
      · split at hstep <;> cases hstep
  | name r =>
      simp only [hcontrol] at h hstep
      split at hstep
      · rename_i ht
        cases hstep
        exact h.named ht
      · cases hstep
  | leftParen r =>
      simp only [hcontrol] at h hstep
      obtain ⟨us, hbefore, hnone, rfl⟩ := h
      split at hstep
      · rename_i ht
        cases hstep
        refine ⟨us, hbefore.congr rfl rfl, by simp [hnone], ?_⟩
        rw [Token.lexeme_eq_mark ht rfl]
        simp [hnone, commaTerminated]
      · cases hstep
  | term r =>
      simp only [hcontrol] at h hstep
      obtain ⟨us, hbefore, hterms, rfl⟩ := h
      split at hstep
      · rename_i ht
        cases hstep
        obtain ⟨hamong, hlexeme⟩ := termOf_among ht
        refine ⟨us, hbefore.congr rfl rfl, ⟨by simp, ?_⟩, ?_⟩
        · exact List.forall_mem_append.mpr ⟨hterms, List.forall_mem_singleton.mpr hamong⟩
        · simp [Lexeme.commaSeparated_concat, hlexeme]
      · cases hstep
  | termOrRightParen r =>
      simp only [hcontrol] at h hstep
      obtain ⟨us, hbefore, hatom, rfl⟩ := h
      split at hstep
      · rename_i ht
        cases hstep
        refine ⟨us, hbefore.congr rfl rfl, hatom.among, ?_⟩
        have hne : (s.atom.terms.map fun t => [t.lexeme]) ≠ [] := by simp [hatom.ne_nil]
        rw [Token.lexeme_eq_mark ht rfl, Lexeme.commaTerminated_eq hne]
        simp
      · split at hstep
        · rename_i ht
          cases hstep
          have hlexemes : us ++ [⟨.identifier, s.atom.name⟩, mark .leftParen] ++
              commaSeparated (s.atom.terms.map fun t => [t.lexeme]) ++ [t.lexeme] =
                us ++ s.atom.lexemes := by
            simp [Atom.lexemes, Token.lexeme_eq_mark ht rfl]
          rw [hlexemes]
          exact spelled_closed hbefore hatom
        · cases hstep
  | mark r =>
      simp only [hcontrol] at h hstep
      obtain ⟨us, hbefore, hatom, rfl⟩ := h
      rw [Token.lexeme_eq_mark rfl (carriesText_of_marked hstep)]
      exact spelled_marked hbefore hatom hstep

/-- The end of the text is reached with a whole program. -/
theorem lexemes_of_step {s : State} {ws : List Lexeme} (h : s.Spelled ws) {t : Token}
    {p : Program} (hstep : s.step t = .done p) :
    p.Grammatical ∧ p.lexemes = ws ++ [t.lexeme] := by
  rw [Spelled] at h
  rw [step] at hstep
  cases hcontrol : s.control with
  | queryOrEnd =>
      simp only [hcontrol] at h hstep
      obtain ⟨⟨hshaped, hopen, -, -, rfl⟩, hne⟩ := h
      split at hstep
      · cases hstep
      · split at hstep
        · rename_i ht
          cases hstep
          refine ⟨⟨hopen, hshaped.schemes, hshaped.facts, hshaped.rules, hne, hshaped.queries⟩, ?_⟩
          rw [Program.lexemes_eq_through, Token.lexeme_eq_mark ht rfl]
          simp [Role.home, ruleLexemes]
        · cases hstep
  | mark r =>
      simp only [hcontrol] at hstep
      unfold marked at hstep
      split at hstep <;> cases hstep
  | opening | colon | name | leftParen | term =>
      simp only [hcontrol] at hstep
      split at hstep <;> cases hstep
  | schemeOrFacts | factOrRules | ruleOrQueries | termOrRightParen =>
      simp only [hcontrol] at hstep
      split at hstep
      · cases hstep
      · split at hstep <;> cases hstep

end State

/-! ## Whole runs -/

/-- A program that is read has the lexemes of the tokens that were consumed. -/
theorem lexemes_of_run {last : Token} {s : State} {ws : List Lexeme} (h : s.Spelled ws)
    {ts rest : List Token} {p : Program} (hrun : run last s ts = (.ok p, rest)) :
    p.Grammatical ∧ ∃ front, ts = front ++ rest ∧ p.lexemes = ws ++ front.map (·.lexeme) := by
  induction ts generalizing s ws with
  | nil => cases hrun
  | cons t ts ih =>
      rw [run] at hrun
      split at hrun
      · rename_i s' hstep
        obtain ⟨hgrammatical, front, rfl, hlexemes⟩ := ih (State.spelled_of_step h hstep) hrun
        exact ⟨hgrammatical, t :: front, rfl, by simpa using hlexemes⟩
      · rename_i q hstep
        cases hrun
        obtain ⟨hgrammatical, hlexemes⟩ := State.lexemes_of_step h hstep
        exact ⟨hgrammatical, [t], rfl, hlexemes⟩
      · cases hrun

end Parser

end LeastModel
