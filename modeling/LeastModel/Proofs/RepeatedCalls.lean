import LeastModel.Proofs.SyntaxErrors

/-!
# Calls on the same tokens

A cursor may be read from again and again, and only holds the tokens that are left.
Here a call is described by positions in the list of all tokens (`Parser.Call`): it
looks at the token in its position and passes over it when that token leads on.
Behind the end it looks at the last token again. Nothing in this keeps a call from
going on behind the end, or from looking into an empty list. It is the last token
that does, for it is an end of the text: as no state is reached through one
(`Parser.State.kind_ne_eof_of_step`), a call that has come to the last token ends there
(`Parser.Closed.lt_of_step`).

## Main statement

`Cursor.calls_keepPosition`: each of any number of calls ends, looks at tokens of the
list only, and leaves the position where the next one starts.
-/

namespace LeastModel

namespace Parser

/-- The index of the token that is looked at in a position. Behind the end it is
the last one. -/
def lookIndex (tokens : List Token) (i : Nat) : Nat :=
  if i < tokens.length then i else tokens.length - 1

/-- A call that goes on from the position `i` in the state `s`. It looks at the tokens
with the indices in `looked`, one after another, passes over each that leads on or ends
the program, and comes to `result` in the position `j`. Where there is no token to look
at there is no call. -/
inductive Call (tokens : List Token) :
    (s : State) → (i : Nat) → (looked : List Nat) → (result : Except SyntaxError Program) →
      (j : Nat) → Prop
  | next {s s' : State} {i j : Nat} {t : Token} {looked : List Nat}
      {result : Except SyntaxError Program} (look : tokens[lookIndex tokens i]? = some t)
      (step : s.step t = .next s') (rest : Call tokens s' (i + 1) looked result j) :
      Call tokens s i (lookIndex tokens i :: looked) result j
  | done {s : State} {i : Nat} {t : Token} {p : Program}
      (look : tokens[lookIndex tokens i]? = some t) (step : s.step t = .done p) :
      Call tokens s i [lookIndex tokens i] (.ok p) (i + 1)
  | refused {s : State} {i : Nat} {t : Token}
      (look : tokens[lookIndex tokens i]? = some t) (step : s.step t = .refused) :
      Call tokens s i [lookIndex tokens i] (.error ⟨t, s.control.expected⟩) i

/-- The tokens end with an end of the text. -/
structure Closed (tokens : List Token) (last : Token) : Prop where
  getLast? : tokens.getLast? = some last
  kind : last.kind = .eof

/-- How a call between two positions has ended. When it has succeeded, the last token
that it has passed over is an end of the text, and the only one. When it has failed, it
has passed over none, and stands before the token that it reports. -/
def Stops (tokens : List Token) (i j : Nat) : Except SyntaxError Program → Prop
  | .ok _ =>
    ∃ front t, tokens.extract i j = front ++ [t] ∧ t.kind = .eof ∧ ∀ u ∈ front, u.kind ≠ .eof
  | .error e =>
    tokens[lookIndex tokens j]? = some e.token ∧ ∀ u ∈ tokens.extract i j, u.kind ≠ .eof

/-! ## Positions -/

variable {tokens : List Token} {last t : Token} {s s' : State} {i j : Nat} {looked : List Nat}
  {result : Except SyntaxError Program}

theorem lookIndex_of_lt (hi : i < tokens.length) : lookIndex tokens i = i := if_pos hi

theorem lookIndex_length (tokens : List Token) :
    lookIndex tokens tokens.length = tokens.length - 1 :=
  if_neg (Nat.lt_irrefl _)

theorem extract_self (tokens : List Token) (i : Nat) : tokens.extract i i = [] := by
  simp

theorem extract_of_look (hlook : tokens[i]? = some t) (hlt : i < j) :
    tokens.extract i j = t :: tokens.extract (i + 1) j := by
  obtain ⟨hi, rfl⟩ := List.getElem?_eq_some_iff.mp hlook
  have hcount : j - i = j - (i + 1) + 1 := by omega
  rw [List.extract_eq_take_drop, List.extract_eq_take_drop, List.drop_eq_getElem_cons hi, hcount,
    List.take_succ_cons]

theorem State.kind_eq_eof_of_step {p : Program} (h : s.step t = .done p) : t.kind = .eof := by
  unfold step marked at h
  grind

/-- No program begins with an end of the text. -/
theorem State.step_initial_of_eof (ht : t.kind = .eof) : State.initial.step t = .refused := by
  simp [step, initial, ht]

namespace Closed

theorem concat (front : List Token) (h : last.kind = .eof) : Closed (front ++ [last]) last :=
  ⟨List.getLast?_concat, h⟩

theorem look_length (h : Closed tokens last) :
    tokens[lookIndex tokens tokens.length]? = some last := by
  rw [lookIndex_length, ← List.getLast?_eq_getElem?, h.getLast?]

/-- A token that leads on has another one behind it. -/
theorem lt_of_step (h : Closed tokens last) (hlook : tokens[i]? = some t)
    (hstep : s.step t = .next s') : i + 1 < tokens.length := by
  have hi : i < tokens.length := (List.getElem?_eq_some_iff.mp hlook).1
  by_contra hnot
  have hend : i = tokens.length - 1 := by omega
  rw [hend, ← List.getLast?_eq_getElem?, h.getLast?] at hlook
  obtain rfl := Option.some.inj hlook
  exact State.kind_ne_eof_of_step hstep h.kind

end Closed

/-! ## What a call keeps -/

namespace Call

theorem look_lt (h : Call tokens s i looked result j) : ∀ k ∈ looked, k < tokens.length := by
  induction h with
  | next look _ _ ih =>
      exact List.forall_mem_cons.mpr ⟨(List.getElem?_eq_some_iff.mp look).1, ih⟩
  | done look _ | refused look _ =>
      exact List.forall_mem_singleton.mpr (List.getElem?_eq_some_iff.mp look).1

/-- The tokens decide what a call does. -/
theorem unique (h : Call tokens s i looked result j) {looked' : List Nat}
    {result' : Except SyntaxError Program} {j' : Nat}
    (h' : Call tokens s i looked' result' j') :
    looked' = looked ∧ result' = result ∧ j' = j := by
  induction h generalizing looked' j' with
  | next look step _ ih =>
      cases h' with
      | next look' step' rest' =>
          obtain rfl := Option.some.inj (look.symm.trans look')
          obtain rfl := Step.next.inj (step.symm.trans step')
          obtain ⟨rfl, rfl, rfl⟩ := ih rest'
          exact ⟨rfl, rfl, rfl⟩
      | done look' step' | refused look' step' =>
          obtain rfl := Option.some.inj (look.symm.trans look')
          cases step.symm.trans step'
  | done look step =>
      cases h' with
      | done look' step' =>
          obtain rfl := Option.some.inj (look.symm.trans look')
          obtain rfl := Step.done.inj (step.symm.trans step')
          exact ⟨rfl, rfl, rfl⟩
      | next look' step' _ | refused look' step' =>
          obtain rfl := Option.some.inj (look.symm.trans look')
          cases step.symm.trans step'
  | refused look step =>
      cases h' with
      | refused look' step' =>
          obtain rfl := Option.some.inj (look.symm.trans look')
          exact ⟨rfl, rfl, rfl⟩
      | next look' step' _ | done look' step' =>
          obtain rfl := Option.some.inj (look.symm.trans look')
          cases step.symm.trans step'

theorem position_le (h : Call tokens s i looked result j) : i ≤ j := by
  induction h with
  | next _ _ _ ih => exact Nat.le_of_succ_le ih
  | done => exact Nat.le_succ _
  | refused => exact Nat.le_refl _

theorem position_le_length (h : Call tokens s i looked result j) (hclosed : Closed tokens last)
    (hi : i < tokens.length) : j ≤ tokens.length := by
  induction h with
  | next look step _ ih =>
      rw [lookIndex_of_lt hi] at look
      exact ih (hclosed.lt_of_step look step)
  | done => exact hi
  | refused => exact hi.le

theorem length_looked_le (h : Call tokens s i looked result j) (hclosed : Closed tokens last)
    (hi : i < tokens.length) : looked.length ≤ tokens.length - i := by
  induction h with
  | next look step _ ih =>
      rw [lookIndex_of_lt hi] at look
      have hrest := ih (hclosed.lt_of_step look step)
      rw [List.length_cons]
      omega
  | done | refused =>
      rw [List.length_singleton]
      omega

theorem stops (h : Call tokens s i looked result j) (hclosed : Closed tokens last)
    (hi : i < tokens.length) : Stops tokens i j result := by
  induction h with
  | @next s s' i j t looked result look step rest ih =>
      rw [lookIndex_of_lt hi] at look
      have hrest := ih (hclosed.lt_of_step look step)
      have hpassed := extract_of_look look rest.position_le
      have ht := State.kind_ne_eof_of_step step
      cases result with
      | ok p =>
          obtain ⟨front, u, heq, hu, hfront⟩ := hrest
          refine ⟨t :: front, u, ?_, hu, List.forall_mem_cons.mpr ⟨ht, hfront⟩⟩
          rw [hpassed, heq, List.cons_append]
      | error e =>
          obtain ⟨hlook, hfront⟩ := hrest
          refine ⟨hlook, ?_⟩
          rw [hpassed]
          exact List.forall_mem_cons.mpr ⟨ht, hfront⟩
  | @done s i t p look step =>
      rw [lookIndex_of_lt hi] at look
      refine ⟨[], t, ?_, State.kind_eq_eof_of_step step, nofun⟩
      rw [extract_of_look look (Nat.lt_succ_self i), extract_self, List.nil_append]
  | refused look _ =>
      refine ⟨look, ?_⟩
      rw [extract_self]
      nofun

end Call

/-! ## Every call ends -/

/-- A call in front of a token ends as the automaton does on the tokens from there on. -/
theorem exists_call (hclosed : Closed tokens last) {i : Nat} (hi : i < tokens.length) (s : State) :
    ∃ looked result j, Call tokens s i looked result j ∧
      run last s (tokens.drop i) = (result, tokens.drop j) := by
  have hlook : tokens[lookIndex tokens i]? = some tokens[i] := by
    rw [lookIndex_of_lt hi, List.getElem?_eq_getElem hi]
  rw [List.drop_eq_getElem_cons hi, run]
  cases hstep : s.step tokens[i] with
  | next s' =>
      have hnext := hclosed.lt_of_step (List.getElem?_eq_getElem hi) hstep
      obtain ⟨looked, result, j, hcall, hrun⟩ := exists_call hclosed hnext s'
      exact ⟨_, result, j, .next hlook hstep hcall, hrun⟩
  | done p => exact ⟨_, .ok p, i + 1, .done hlook hstep, rfl⟩
  | refused =>
      refine ⟨_, _, i, .refused hlook hstep, ?_⟩
      rw [List.drop_eq_getElem_cons hi]
termination_by tokens.length - i

/-- A call for a program ends as reading does, wherever it starts. Behind the end this
is at the last token, which no program begins with. -/
theorem exists_call_initial (hclosed : Closed tokens last) (hi : i ≤ tokens.length) :
    ∃ looked result j, run last .initial (tokens.drop i) = (result, tokens.drop j) ∧
      j ≤ tokens.length ∧ Call tokens .initial i looked result j ∧
      looked.length ≤ tokens.length ∧ Stops tokens i j result := by
  rcases hi.lt_or_eq with hlt | rfl
  · obtain ⟨looked, result, j, hcall, hrun⟩ := exists_call hclosed hlt .initial
    have hlength := hcall.length_looked_le hclosed hlt
    exact ⟨looked, result, j, hrun, hcall.position_le_length hclosed hlt, hcall,
      hlength.trans (Nat.sub_le _ _), hcall.stops hclosed hlt⟩
  · have hlook := hclosed.look_length
    have hcall := Call.refused hlook (State.step_initial_of_eof hclosed.kind)
    refine ⟨_, _, tokens.length, ?_, Nat.le_refl _, hcall, ?_, hlook, ?_⟩
    · rw [List.drop_length]
      rfl
    · exact Nat.zero_lt_of_lt (List.getElem?_eq_some_iff.mp hlook).1
    · rw [extract_self]
      nofun

end Parser

/-! ## Cursors -/

namespace Cursor

open LeastModel.Parser (Call Closed Stops lookIndex)

/-- The cursor after a number of calls. -/
def afterCalls (c : Cursor) : Nat → Cursor
  | 0 => c
  | n + 1 => (c.afterCalls n).parse.2

/-- How many of the tokens have been passed over. -/
def position (c : Cursor) (tokens : List Token) : Nat := tokens.length - c.rest.length

/-- The cursor stands in a list of tokens that ends with an end of the text. -/
structure StandsIn (c : Cursor) (tokens : List Token) : Prop where
  rest : c.rest = tokens.drop (c.position tokens)
  closed : Closed tokens c.last

variable {c : Cursor} {tokens : List Token}

theorem position_le_length (c : Cursor) (tokens : List Token) :
    c.position tokens ≤ tokens.length :=
  Nat.sub_le _ _

theorem position_of_rest {i : Nat} (hrest : c.rest = tokens.drop i) (hi : i ≤ tokens.length) :
    c.position tokens = i := by
  rw [position, hrest, List.length_drop]
  omega

theorem standsIn_of_rest {i : Nat} (hrest : c.rest = tokens.drop i) (hi : i ≤ tokens.length)
    (hclosed : Closed tokens c.last) : c.StandsIn tokens :=
  ⟨by rw [position_of_rest hrest hi, hrest], hclosed⟩

theorem position_ofTokens (tokens : List Token) :
    (ofTokens tokens).position (Grammar.significant tokens) = 0 :=
  position_of_rest (i := 0) (Grammar.rest_ofTokens tokens) (Nat.zero_le _)

theorem closed_ofTokens (tokens : List Token) :
    Closed (Grammar.significant tokens) (ofTokens tokens).last := by
  rw [← Grammar.rest_ofTokens, ofTokens]
  cases hlast : (tokens.filter (·.kind != .comment)).getLast? with
  | none => exact ⟨rfl, rfl⟩
  | some last =>
      by_cases heof : last.kind = .eof
      · simpa [heof] using Closed.mk hlast heof
      · simpa [heof] using Closed.concat _ rfl

theorem standsIn_ofTokens (tokens : List Token) :
    (ofTokens tokens).StandsIn (Grammar.significant tokens) :=
  standsIn_of_rest (i := 0) (Grammar.rest_ofTokens tokens) (Nat.zero_le _)
    (closed_ofTokens tokens)

namespace StandsIn

/-- One call. -/
theorem exists_call (h : c.StandsIn tokens) :
    c.parse.2.StandsIn tokens ∧
      Stops tokens (c.position tokens) (c.parse.2.position tokens) c.parse.1 ∧
      ∃ looked, looked.length ≤ tokens.length ∧
        Call tokens .initial (c.position tokens) looked c.parse.1 (c.parse.2.position tokens) := by
  obtain ⟨looked, result, j, hrun, hj, hcall, hlength, hstops⟩ :=
    Parser.exists_call_initial h.closed (c.position_le_length tokens)
  rw [← h.rest] at hrun
  have hparse : c.parse = (result, { c with rest := tokens.drop j }) := by rw [parse, hrun]
  rw [hparse, position_of_rest (c := { c with rest := tokens.drop j }) rfl hj]
  exact ⟨standsIn_of_rest rfl hj h.closed, hstops, looked, hlength, hcall⟩

/-- Behind the end every call is refused at the last token, and moves nothing. -/
theorem parse_of_end (h : c.StandsIn tokens) (hend : c.position tokens = tokens.length) :
    c.parse = (.error ⟨c.last, [.schemes]⟩, c) := by
  obtain ⟨rest, last⟩ := c
  have hrest : rest = [] := h.rest.trans (by rw [hend, List.drop_length])
  rw [hrest]
  rfl

/-- Any number of calls. -/
theorem afterCalls (h : c.StandsIn tokens) (n : Nat) : (c.afterCalls n).StandsIn tokens := by
  induction n with
  | zero => exact h
  | succ n ih => exact ih.exists_call.1

theorem afterCalls_of_end (h : c.StandsIn tokens) {n m : Nat} (hle : n ≤ m)
    (hend : (c.afterCalls n).position tokens = tokens.length) :
    c.afterCalls m = c.afterCalls n := by
  induction m, hle using Nat.le_induction with
  | base => rfl
  | succ m _ ih => rw [Cursor.afterCalls, ih, (h.afterCalls n).parse_of_end hend]

end StandsIn

/-- Calls on the same tokens, comments aside and closed by an end of the text. Each call
starts where the one before it has stopped, does not go back or behind the end, and ends
after it has looked at tokens of the list only. When it succeeds, the last token that it
has passed over is an end of the text and the only one; when it fails, it has passed over
none and stands before the token that it reports. Once the end is reached, every call
fails at the last token, where a program should begin, and stays there. -/
theorem calls_keepPosition (tokens : List Token) :
    let all := Grammar.significant tokens
    let cursor := (ofTokens tokens).afterCalls
    let position := fun n => (cursor n).position all
    let result := fun n => (cursor n).parse.1
    (position 0 = 0 ∧ ∀ n, (cursor n).rest = all.drop (position n) ∧
      position n ≤ position (n + 1) ∧ position n ≤ all.length) ∧
    (∀ n, ∃ looked, looked.length ≤ all.length ∧ (∀ k ∈ looked, k < all.length) ∧
      ∀ l r j, Call all .initial (position n) l r j ↔
        l = looked ∧ r = result n ∧ j = position (n + 1)) ∧
    (∀ n p, result n = .ok p → ∃ front t,
      all.extract (position n) (position (n + 1)) = front ++ [t] ∧ t.kind = .eof ∧
        ∀ u ∈ front, u.kind ≠ .eof) ∧
    (∀ n e, result n = .error e → all[lookIndex all (position (n + 1))]? = some e.token ∧
      ∀ u ∈ all.extract (position n) (position (n + 1)), u.kind ≠ .eof) ∧
    ∀ n, position n = all.length → ∀ m, n ≤ m → position m = all.length ∧
      ∃ last, all.getLast? = some last ∧ last.kind = .eof ∧ result m = .error ⟨last, [.schemes]⟩ := by
  intro all cursor position result
  have hstands (n : Nat) : (cursor n).StandsIn all := (standsIn_ofTokens tokens).afterCalls n
  have hstops (n : Nat) : Stops all (position n) (position (n + 1)) (result n) :=
    (hstands n).exists_call.2.1
  refine ⟨⟨position_ofTokens tokens, fun n => ⟨(hstands n).rest, ?_, ?_⟩⟩, ?_, ?_, ?_, ?_⟩
  · obtain ⟨-, -, looked, -, hcall⟩ := (hstands n).exists_call
    exact hcall.position_le
  · exact (cursor n).position_le_length all
  · intro n
    obtain ⟨-, -, looked, hlength, hcall⟩ := (hstands n).exists_call
    refine ⟨looked, hlength, hcall.look_lt, fun l r j => ⟨hcall.unique, ?_⟩⟩
    rintro ⟨rfl, rfl, rfl⟩
    exact hcall
  · intro n p hresult
    have h := hstops n
    rwa [hresult] at h
  · intro n e hresult
    have h := hstops n
    rwa [hresult] at h
  · intro n hend m hle
    have hsame : cursor m = cursor n := (standsIn_ofTokens tokens).afterCalls_of_end hle hend
    have hmend : position m = all.length := by
      dsimp only [position]
      rw [hsame]
      exact hend
    have hparse := (hstands m).parse_of_end hmend
    exact ⟨hmend, (cursor m).last, (hstands m).closed.getLast?, (hstands m).closed.kind,
      congrArg Prod.fst hparse⟩

/-- Two programs, with a comment between them. The first call ends at the end of the
text in the middle, the second at the last one, and all others are refused there. -/
theorem calls_keepPosition_twoPrograms :
    let text : Bytes := "Schemes:p(x)Facts:Rules:Queries:p(x)?"
    let program : Program := ⟨[⟨"p", [.identifier "x"]⟩], [], [], [⟨"p", [.identifier "x"]⟩]⟩
    let tokens := lex text ++ ⟨.comment, "# again", 1, 38⟩ :: lex text
    let all := Grammar.significant tokens
    let cursor := (ofTokens tokens).afterCalls
    let position := fun n => (cursor n).position all
    let result := fun n => (cursor n).parse.1
    (all.length, position 1, position 2) = (36, 18, 36) ∧
      result 0 = .ok program ∧ result 1 = .ok program ∧
      (∃ front t, all.extract 18 36 = front ++ [t] ∧ t.kind = .eof ∧
        ∀ u ∈ front, u.kind ≠ .eof) ∧
      result 2 = .error ⟨⟨.eof, [], 1, 38⟩, [.schemes]⟩ ∧
      all[lookIndex all (position 3)]? = some ⟨.eof, [], 1, 38⟩ ∧
      ∀ m, 2 ≤ m → position m = 36 ∧ ∃ last, result m = .error ⟨last, [.schemes]⟩ := by
  intro text program tokens all cursor position result
  have hpositions : (all.length, position 1, position 2) = (36, 18, 36) := by decide +kernel
  have hfirst : result 0 = .ok program := by decide +kernel
  have hsecond : result 1 = .ok program := by decide +kernel
  have hthird : result 2 = .error ⟨⟨.eof, [], 1, 38⟩, [.schemes]⟩ := by decide +kernel
  obtain ⟨-, -, hok, herror, hend⟩ := calls_keepPosition tokens
  have hstart : position 1 = 18 := congrArg (fun x => x.2.1) hpositions
  have hstop : position 2 = 36 := congrArg (fun x => x.2.2) hpositions
  have hlength : all.length = 36 := congrArg Prod.fst hpositions
  have hpassed : ∃ front t, all.extract (position 1) (position 2) = front ++ [t] ∧
      t.kind = .eof ∧ ∀ u ∈ front, u.kind ≠ .eof := hok 1 program hsecond
  rw [hstart, hstop] at hpassed
  refine ⟨hpositions, hfirst, hsecond, hpassed, hthird, (herror 2 _ hthird).1, ?_⟩
  intro m hm
  obtain ⟨hposition, last, -, -, hresult⟩ := hend 2 (hstop.trans hlength.symm) m hm
  exact ⟨hposition.trans hlength, last, hresult⟩

end Cursor

end LeastModel
