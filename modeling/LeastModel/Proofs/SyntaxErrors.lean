import LeastModel.Proofs.Acceptance

/-!
# Where reading stops

Whatever has been read can be completed to a program: each kind that a control
expects leads on, and as only the end of a repetition is expected, it leads
nearer to the end of the text (`State.step_of_expected`). What a state refuses,
on the other hand, can be completed by nothing, for a program would have been
read to its end. So the token that is refused is the first that no program has
in its place.

## Main statement

`Program.parse_error_firstImpossible`: the failure to read a text names the first
impossible token, and kinds that are possible instead.
-/

namespace LeastModel

namespace Grammar

/-- Some program begins with tokens of these kinds. -/
def Viable (kinds : List TokenKind) : Prop := ∃ word ∈ program, kinds <+: word

theorem Viable.of_le {kinds more : List TokenKind} (h : Viable more)
    (hle : kinds <+: more) : Viable kinds := by
  obtain ⟨word, hword, hmore⟩ := h
  exact ⟨word, hword, hle.trans hmore⟩

end Grammar

open Grammar (Viable)

/-- The token of an error is the first of the tokens that cannot be there: up to it
some program begins like this, and with it none does. Each expected kind would do. -/
def SyntaxError.FirstImpossible (e : SyntaxError) (tokens : List Token) : Prop :=
  ∃ before after, tokens = before ++ e.token :: after ∧
    Viable (before.map (·.kind)) ∧ ¬ Viable (before.map (·.kind) ++ [e.token.kind]) ∧
    e.expected ≠ [] ∧ ∀ k ∈ e.expected, Viable (before.map (·.kind) ++ [k])

namespace Parser

/-! ## The way to the end -/

/-- How many tokens it takes at least from the keyword of a section to the end. -/
def Section.remaining : Section → Nat
  | .schemes => 18
  | .facts => 12
  | .rules => 10
  | .queries => 8

/-- How many tokens it takes at least from behind an atom to the end. -/
def Role.remaining : Role → Nat
  | .scheme => Section.facts.remaining
  | .fact => 1 + Section.rules.remaining
  | .head => 6 + Section.queries.remaining
  | .body => 1 + Section.queries.remaining
  | .query => 2

/-- How many tokens it takes at least to the end of a program. -/
def Control.remaining : Control → Nat
  | .opening => Section.schemes.remaining
  | .colon sec => sec.remaining - 1
  | .schemeOrFacts => Section.facts.remaining
  | .factOrRules => Section.rules.remaining
  | .ruleOrQueries => Section.queries.remaining
  | .queryOrEnd => 1
  | .name r => r.remaining + 4
  | .leftParen r => r.remaining + 3
  | .term r => r.remaining + 2
  | .termOrRightParen r => r.remaining + 1
  | .mark r => r.remaining

/-- The automaton never waits for a mark behind a scheme. -/
def Control.Occurs (c : Control) : Prop := c ≠ .mark .scheme

theorem Control.Occurs.expected_ne_nil {c : Control} (h : c.Occurs) : c.expected ≠ [] := by
  cases c with
  | mark r =>
      cases r with
      | scheme => exact absurd rfl h
      | fact | head | body | query => nofun
  | term r => cases r <;> nofun
  | _ => nofun

theorem Role.eof_notMem_termKinds (r : Role) : .eof ∉ r.termKinds := by
  cases r <;> decide

theorem run_of_step {s s' : State} {t : Token} (h : s.step t = .next s') (last : Token)
    (ts : List Token) : run last s (t :: ts) = run last s' ts := by
  simp only [run, h]

namespace State

variable {s s' : State} {t : Token}

theorem occurs_enter (s : State) (sec : Section) : (s.enter sec).control.Occurs := by
  cases sec <;> simp [enter, Control.Occurs]

theorem occurs_named (s : State) (r : Role) (t : Token) : (s.named r t).control.Occurs := by
  simp [named, Control.Occurs]

theorem occurs_closed (s : State) (r : Role) : (s.closed r).control.Occurs := by
  cases r <;> simp [closed, Control.Occurs]

theorem occurs_of_marked {r : Role} {k : TokenKind} (h : s.marked r k = .next s') :
    s'.control.Occurs := by
  unfold marked at h
  split at h <;> cases h <;> simp [Control.Occurs]

theorem occurs_of_step (h : s.step t = .next s') : s'.control.Occurs := by
  rw [step] at h
  cases hcontrol : s.control with
  | colon sec =>
      simp only [hcontrol] at h
      split at h
      · cases h
        exact s.occurs_enter sec
      · cases h
  | termOrRightParen r =>
      simp only [hcontrol] at h
      split at h
      · cases h
        simp [Control.Occurs]
      · split at h <;> cases h
        exact s.occurs_closed r
  | mark r =>
      simp only [hcontrol] at h
      exact occurs_of_marked h
  | name r =>
      simp only [hcontrol] at h
      split at h <;> cases h
      exact s.occurs_named r t
  | opening | leftParen | term =>
      simp only [hcontrol] at h
      split at h <;> cases h
      simp [Control.Occurs]
  | schemeOrFacts | factOrRules | ruleOrQueries | queryOrEnd =>
      simp only [hcontrol] at h
      split at h
      · cases h
        exact s.occurs_named _ t
      · split at h <;> cases h <;> simp [Control.Occurs]

/-- An end of the text leads to no further state. -/
theorem kind_ne_eof_of_step (h : s.step t = .next s') : t.kind ≠ .eof := by
  intro heof
  have hterms := Role.eof_notMem_termKinds
  unfold step marked at h
  grind

/-- An expected token ends the program or leads nearer to its end. -/
theorem step_of_expected (hs : s.control.Occurs) (ht : t.kind ∈ s.control.expected) :
    (∃ p, s.step t = .done p) ∨
      ∃ s', s.step t = .next s' ∧ s'.control.remaining < s.control.remaining := by
  cases hcontrol : s.control with
  | term r =>
      have hkind : t.kind ∈ r.termKinds := by rwa [hcontrol] at ht
      simp [step, hcontrol, hkind, Control.remaining]
  | mark r =>
      rw [hcontrol] at hs ht
      cases r with
      | scheme => exact absurd rfl hs
      | fact | head | body | query =>
          have hkind := List.mem_singleton.mp ht
          simp [step, hcontrol, marked, hkind, Control.remaining, Role.remaining,
            Section.remaining]
  | colon sec =>
      rw [hcontrol] at ht
      have hkind := List.mem_singleton.mp ht
      cases sec <;>
        simp [step, hcontrol, hkind, enter, Control.remaining, Role.remaining, Section.remaining]
  | termOrRightParen r =>
      rw [hcontrol] at ht
      have hkind := List.mem_singleton.mp ht
      cases r <;> simp [step, hcontrol, hkind, closed, Control.remaining, Role.remaining]
  | opening | schemeOrFacts | factOrRules | ruleOrQueries | queryOrEnd | name | leftParen =>
      rw [hcontrol] at ht
      have hkind := List.mem_singleton.mp ht
      simp [step, hcontrol, hkind, named, Control.remaining, Section.remaining]

/-- After an expected token the text can be completed to that of a program. -/
theorem exists_completion (last : Token) (hs : s.control.Occurs)
    (ht : t.kind ∈ s.control.expected) : ∃ ts p, run last s (t :: ts) = (.ok p, []) := by
  -- The induction is on the distance to the end.
  induction hn : s.control.remaining using Nat.strong_induction_on generalizing s t with
  | _ n ih =>
      obtain ⟨p, hdone⟩ | ⟨s', hnext, hlt⟩ := step_of_expected hs ht
      · exact ⟨[], p, by rw [run, hdone]⟩
      · have hs' := occurs_of_step hnext
        obtain ⟨k, hk⟩ := List.exists_mem_of_ne_nil _ hs'.expected_ne_nil
        obtain ⟨ts, p, hrun⟩ := ih _ (hn ▸ hlt) (t := ⟨k, [], 0, 0⟩) hs' hk rfl
        exact ⟨⟨k, [], 0, 0⟩ :: ts, p, by rw [run_of_step hnext, hrun]⟩

end State

/-! ## What has been read when a token is refused -/

/-- Tokens that lead from one state to another, none of them refused. -/
inductive Path : State → List Token → State → Prop
  | nil (s : State) : Path s [] s
  | cons {s s' s'' : State} {t : Token} {ts : List Token}
      (step : s.step t = .next s') (rest : Path s' ts s'') : Path s (t :: ts) s''

namespace Path

variable {s s' : State} {ts : List Token}

theorem run_append (h : Path s ts s') (last : Token) (rest : List Token) :
    run last s (ts ++ rest) = run last s' rest := by
  induction h with
  | nil s => rfl
  | cons hstep _ ih => rw [List.cons_append, run_of_step hstep, ih]

theorem occurs (h : Path s ts s') (hs : s.control.Occurs) : s'.control.Occurs := by
  induction h with
  | nil s => exact hs
  | cons hstep _ ih => exact ih (State.occurs_of_step hstep)

theorem kind_ne_eof (h : Path s ts s') : ∀ t ∈ ts, t.kind ≠ .eof := by
  induction h with
  | nil s => nofun
  | cons hstep _ ih => exact List.forall_mem_cons.mpr ⟨State.kind_ne_eof_of_step hstep, ih⟩

/-- Reading fails in the state that it has reached, at a token or where there are
no more tokens. -/
theorem of_run_error {last : Token} {rest : List Token} {e : SyntaxError}
    (h : run last s ts = (.error e, rest)) :
    ∃ before s', Path s before s' ∧ e.expected = s'.control.expected ∧
      (ts = before ∨ ∃ after, ts = before ++ e.token :: after ∧ s'.step e.token = .refused) := by
  induction ts generalizing s with
  | nil =>
      cases h
      exact ⟨[], s, .nil s, rfl, .inl rfl⟩
  | cons t ts ih =>
      rw [run] at h
      split at h
      · rename_i s₁ hstep
        obtain ⟨before, s', hpath, hexpected, hend⟩ := ih h
        refine ⟨t :: before, s', .cons hstep hpath, hexpected, ?_⟩
        rcases hend with rfl | ⟨after, rfl, hrefused⟩
        · exact .inl rfl
        · exact .inr ⟨after, rfl, hrefused⟩
      · cases h
      · rename_i hrefused
        cases h
        exact ⟨[], s, .nil s, rfl, .inr ⟨ts, rfl, hrefused⟩⟩

end Path

/-! ## Possible and impossible tokens -/

/-- The automaton reads the words of the grammar to their ends. -/
theorem kinds_mem_program_iff (last : Token) (ts : List Token) :
    ts.map (·.kind) ∈ Grammar.program ↔ ∃ p, run last .initial ts = (.ok p, []) := by
  rw [Grammar.describes_program ts]
  constructor
  · rintro ⟨p, hp, hlexemes⟩
    have hrun := run_of_lexemes hp last hlexemes.symm []
    rw [List.append_nil] at hrun
    exact ⟨p, hrun⟩
  · rintro ⟨p, hrun⟩
    obtain ⟨hp, front, hts, hlexemes⟩ := lexemes_of_run State.spelled_initial hrun
    rw [List.append_nil] at hts
    exact ⟨p, hp, hts ▸ hlexemes⟩

theorem Path.viable_of_expected {s : State} {before : List Token}
    (h : Path .initial before s) {k : TokenKind} (hk : k ∈ s.control.expected) :
    Viable (before.map (·.kind) ++ [k]) := by
  have hs : s.control.Occurs := h.occurs nofun
  obtain ⟨ts, p, hrun⟩ := State.exists_completion Cursor.endMark hs (t := ⟨k, [], 0, 0⟩) hk
  rw [← h.run_append] at hrun
  refine ⟨_, (kinds_mem_program_iff Cursor.endMark _).mpr ⟨p, hrun⟩, ts.map (·.kind), ?_⟩
  simp

theorem Path.not_viable_of_refused {s : State} {before : List Token}
    (h : Path .initial before s) {t : Token} (ht : s.step t = .refused) :
    ¬ Viable (before.map (·.kind) ++ [t.kind]) := by
  rintro ⟨word, hword, more, rfl⟩
  -- Tokens of the remaining kinds cannot change that `t` has been refused before.
  have hkinds : (before ++ t :: more.map fun k => ⟨k, [], 0, 0⟩).map (·.kind) =
      before.map (·.kind) ++ [t.kind] ++ more := by
    simp [Function.comp_def]
  rw [← hkinds] at hword
  obtain ⟨p, hrun⟩ := (kinds_mem_program_iff Cursor.endMark _).mp hword
  rw [h.run_append, run, ht] at hrun
  cases hrun

theorem Path.firstImpossible {before after : List Token} {s : State} {e : SyntaxError}
    (h : Path .initial before s) (hrefused : s.step e.token = .refused)
    (hexpected : e.expected = s.control.expected) :
    e.FirstImpossible (before ++ e.token :: after) := by
  have hs : s.control.Occurs := h.occurs nofun
  obtain ⟨k, hk⟩ := List.exists_mem_of_ne_nil _ hs.expected_ne_nil
  refine ⟨before, after, rfl, ?_, h.not_viable_of_refused hrefused, ?_, ?_⟩
  · exact (h.viable_of_expected hk).of_le (List.prefix_append _ _)
  · rw [hexpected]
    exact hs.expected_ne_nil
  · intro k hk
    exact h.viable_of_expected (hexpected ▸ hk)

end Parser

/-! ## Texts -/

namespace Program

/-- A text that is no program is refused at the first token, comments aside, that
cannot be in its place, and what is said to be expected there can be. -/
theorem parse_error_firstImpossible {source : Bytes} {e : SyntaxError}
    (h : parse source = .error e) :
    e.FirstImpossible ((lex source).filter (·.kind ≠ .comment)) := by
  obtain ⟨front, last, hsignificant, hlast, -⟩ := Grammar.significant_lex source
  have hrun : (Parser.run (Cursor.ofTokens (lex source)).last .initial
      (Grammar.significant (lex source))).1 = .error e := by
    rw [← Grammar.rest_ofTokens]
    exact h
  rw [← Grammar.significant_lex_eq_filter]
  obtain ⟨before, s, hpath, hexpected, hend⟩ := Parser.Path.of_run_error (Prod.ext hrun rfl)
  rcases hend with hall | ⟨after, hafter, hrefused⟩
  · -- The end of the text is not passed over.
    rw [← hall, hsignificant] at hpath
    exact absurd hlast (hpath.kind_ne_eof last (by simp))
  · rw [hafter]
    exact hpath.firstImpossible hrefused hexpected

/-- A constant and a comment after the comma of a body, where another atom is due. -/
theorem parse_error_firstImpossible_bodyAtom :
    let source : Bytes := "Schemes:e(x)Facts:Rules:e(x):-e('a'),# atom\n'b'."
    ∃ e, parse source = .error e ∧
      e.FirstImpossible ((lex source).filter (·.kind ≠ .comment)) ∧
      (e.token, e.expected) = (⟨.constant, "'b'", 2, 1⟩, [.identifier]) := by
  intro source
  have hparse : parse source = .error ⟨⟨.constant, "'b'", 2, 1⟩, [.identifier]⟩ := by
    decide +kernel
  exact ⟨_, hparse, parse_error_firstImpossible hparse, rfl⟩

end Program

end LeastModel
