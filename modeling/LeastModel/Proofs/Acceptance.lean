import LeastModel.Proofs.AutomatonStates
import LeastModel.Proofs.Lexing

/-!
# What the automaton accepts

The lexemes of atoms, rules and sections lead the automaton from state to state,
whatever tokens they come from (`Reads`, `Leads`), and those of a whole program
lead it to its end. Together with what the states stand for, this says that a
list of tokens is read as a program exactly when it begins with the lexemes of
that program.

## Main statement

`Program.ofTokens_accepts_grammar`: tokens are accepted when their kinds begin
with a word of the grammar, and the program is the one that these tokens spell.
-/

namespace LeastModel

open Lexeme (mark commaSeparated commaTerminated)

namespace Parser

/-! ## Lexemes that lead from state to state -/

/-- Tokens with the given lexemes take the automaton from one state to another. -/
def Reads (s : State) (ws : List Lexeme) (s' : State) : Prop :=
  ∀ (last : Token) (ts rest : List Token), ts.map (·.lexeme) = ws →
    run last s (ts ++ rest) = run last s' rest

theorem Reads.refl (s : State) : Reads s [] s := by
  intro last ts rest hts
  rw [List.map_eq_nil_iff.mp hts, List.nil_append]

theorem Reads.trans {s s' s'' : State} {ws ws' : List Lexeme} (h : Reads s ws s')
    (h' : Reads s' ws' s'') : Reads s (ws ++ ws') s'' := by
  intro last ts rest hts
  obtain ⟨us, vs, rfl, hus, hvs⟩ := List.map_eq_append_iff.mp hts
  rw [List.append_assoc, h last us (vs ++ rest) hus, h' last vs rest hvs]

theorem Reads.of_step {s s' : State} {x : Lexeme}
    (h : ∀ t : Token, t.lexeme = x → s.step t = .next s') : Reads s [x] s' := by
  intro last ts rest hts
  obtain ⟨t, rfl, ht⟩ := List.map_eq_singleton_iff.mp hts
  rw [List.singleton_append, run, h t ht]

theorem Reads.of_kind {s s' : State} {k : TokenKind}
    (h : ∀ t : Token, t.kind = k → s.step t = .next s') : Reads s [mark k] s' :=
  .of_step fun t ht => h t (congrArg Lexeme.kind ht)

theorem termOf_eq {t : Token} {u : Term} {kinds : List TokenKind} (hu : u.Among kinds)
    (h : t.lexeme = u.lexeme) : t.kind ∈ kinds ∧ termOf t = u := by
  obtain ⟨v, rfl, hmem⟩ | ⟨v, rfl, hmem⟩ := hu.cases
  · obtain ⟨hkind, rfl⟩ := Token.of_lexeme_eq (k := .identifier) rfl h
    exact ⟨hkind ▸ hmem, by simp [termOf, hkind]⟩
  · obtain ⟨hkind, rfl⟩ := Token.of_lexeme_eq (k := .constant) rfl h
    exact ⟨hkind ▸ hmem, by simp [termOf, hkind]⟩

theorem reads_term (r : Role) (p : Program) (rule : Rule) (name : Bytes) (before : List Term)
    {u : Term} (hu : u.Among r.termKinds) :
    Reads ⟨.term r, p, rule, ⟨name, before⟩⟩ [u.lexeme]
      ⟨.termOrRightParen r, p, rule, ⟨name, before ++ [u]⟩⟩ := by
  apply Reads.of_step
  intro t ht
  obtain ⟨hkind, hterm⟩ := termOf_eq hu ht
  simp [State.step, hkind, hterm]

theorem reads_terms (r : Role) (p : Program) (rule : Rule) (name : Bytes) (before us : List Term)
    (hus : ∀ u ∈ us, u.Among r.termKinds) :
    Reads ⟨.term r, p, rule, ⟨name, before⟩⟩ (commaTerminated (us.map fun u => [u.lexeme]))
      ⟨.term r, p, rule, ⟨name, before ++ us⟩⟩ := by
  induction us generalizing before with
  | nil => simpa [commaTerminated] using Reads.refl _
  | cons u us ih =>
      obtain ⟨hu, hus⟩ := List.forall_mem_cons.mp hus
      have hterm := reads_term r p rule name before hu
      have hcomma : Reads ⟨.termOrRightParen r, p, rule, ⟨name, before ++ [u]⟩⟩ [mark .comma]
          ⟨.term r, p, rule, ⟨name, before ++ [u]⟩⟩ :=
        .of_kind fun t ht => by simp [State.step, ht]
      have hrest := ih (before ++ [u]) hus
      simpa [commaTerminated] using (hterm.trans hcomma).trans hrest

/-- An atom is read wherever its name is expected. -/
theorem reads_atom {s : State} {r : Role}
    (hopen : ∀ t : Token, t.kind = .identifier → s.step t = .next (s.named r t)) {a : Atom}
    (ha : a.Over r.termKinds) : Reads s a.lexemes ({ s with atom := a }.closed r) := by
  obtain ⟨name, terms⟩ := a
  obtain ⟨hne, hterms⟩ := ha
  obtain ⟨us, u, rfl⟩ : ∃ us u, terms = us ++ [u] :=
    ⟨_, _, (List.dropLast_concat_getLast hne).symm⟩
  obtain ⟨hus, hu⟩ := List.forall_mem_append.mp hterms
  have hname : Reads s [⟨.identifier, name⟩]
      { s with control := .leftParen r, atom := ⟨name, []⟩ } := by
    apply Reads.of_step
    intro t ht
    obtain ⟨hkind, rfl⟩ := Token.of_lexeme_eq (k := .identifier) rfl ht
    exact hopen t hkind
  have hleft : Reads { s with control := .leftParen r, atom := ⟨name, []⟩ } [mark .leftParen]
      { s with control := .term r, atom := ⟨name, []⟩ } :=
    .of_kind fun t ht => by simp [State.step, ht]
  have hbefore := reads_terms r s.program s.rule name [] us hus
  have hlast := reads_term r s.program s.rule name us (hu u (List.mem_singleton.mpr rfl))
  have hright : Reads { s with control := .termOrRightParen r, atom := ⟨name, us ++ [u]⟩ }
      [mark .rightParen] ({ s with atom := ⟨name, us ++ [u]⟩ }.closed r) := by
    apply Reads.of_kind
    intro t ht
    cases r <;> simp [State.step, State.closed, ht]
  have hall := (((hname.trans hleft).trans hbefore).trans hlast).trans hright
  simpa [Atom.lexemes, Lexeme.commaSeparated_concat] using hall

/-! ## Entries and sections -/

/-- Lexemes take the automaton from one place to another, whatever rule and atom
it has read last. -/
def Leads (c : Control) (p : Program) (ws : List Lexeme) (c' : Control) (p' : Program) : Prop :=
  ∀ rule atom, ∃ rule' atom', Reads ⟨c, p, rule, atom⟩ ws ⟨c', p', rule', atom'⟩

theorem Leads.refl (c : Control) (p : Program) : Leads c p [] c p :=
  fun rule atom => ⟨rule, atom, Reads.refl _⟩

theorem Leads.trans {c c' c'' : Control} {p p' p'' : Program} {ws ws' : List Lexeme}
    (h : Leads c p ws c' p') (h' : Leads c' p' ws' c'' p'') : Leads c p (ws ++ ws') c'' p'' := by
  intro rule atom
  obtain ⟨rule', atom', hfirst⟩ := h rule atom
  obtain ⟨rule'', atom'', hsecond⟩ := h' rule' atom'
  exact ⟨rule'', atom'', hfirst.trans hsecond⟩

theorem Leads.of_kind {c c' : Control} {p : Program} {k : TokenKind}
    (h : ∀ rule atom, ∀ t : Token, t.kind = k →
      State.step ⟨c, p, rule, atom⟩ t = .next ⟨c', p, rule, atom⟩) :
    Leads c p [mark k] c' p :=
  fun rule atom => ⟨rule, atom, .of_kind (h rule atom)⟩

/-- Entries of a section one after another, when one entry leads back to where
it was expected. -/
theorem leads_flatMap {α : Type} {c : Control} (build : List α → Program)
    {lexemes : α → List Lexeme} {good : α → Prop}
    (h : ∀ before a, good a → Leads c (build before) (lexemes a) c (build (before ++ [a])))
    (before entries : List α) (hentries : ∀ a ∈ entries, good a) :
    Leads c (build before) (entries.flatMap lexemes) c (build (before ++ entries)) := by
  induction entries generalizing before with
  | nil => simpa using Leads.refl c (build before)
  | cons a entries ih =>
      obtain ⟨ha, hentries⟩ := List.forall_mem_cons.mp hentries
      have hrest := (h before a ha).trans (ih (before ++ [a]) hentries)
      simpa using hrest

theorem leads_title {c : Control} {p : Program} (sec : Section) {c' : Control}
    (h : ∀ rule atom, ∀ t : Token, t.kind = sec.keyword →
      State.step ⟨c, p, rule, atom⟩ t = .next ⟨.colon sec, p, rule, atom⟩)
    (henter : ∀ rule atom, State.enter ⟨.colon sec, p, rule, atom⟩ sec = ⟨c', p, rule, atom⟩) :
    Leads c p ([mark sec.keyword] ++ [mark .colon]) c' p := by
  apply (Leads.of_kind h).trans
  apply Leads.of_kind
  intro rule atom t ht
  simp [State.step, ht, henter]

theorem leads_scheme {c : Control} (hc : c = .name .scheme ∨ c = .schemeOrFacts) (p : Program)
    {a : Atom} (ha : a.Over [.identifier]) :
    Leads c p a.lexemes .schemeOrFacts { p with schemes := p.schemes ++ [a] } := by
  intro rule atom
  refine ⟨rule, a, reads_atom (r := .scheme) ?_ ha⟩
  intro t ht
  rcases hc with rfl | rfl <;> simp [State.step, ht]

theorem leads_fact (p : Program) {a : Atom} (ha : a.Over [.constant]) :
    Leads .factOrRules p a.factLexemes .factOrRules { p with facts := p.facts ++ [a] } := by
  intro rule atom
  refine ⟨rule, a, (reads_atom (r := .fact) ?_ ha).trans (.of_kind ?_)⟩
  · intro t ht
    simp [State.step, ht]
  · intro t ht
    simp [State.step, State.closed, State.marked, ht]

theorem leads_query {c : Control} (hc : c = .name .query ∨ c = .queryOrEnd) (p : Program)
    {a : Atom} (ha : a.Over [.identifier, .constant]) :
    Leads c p a.queryLexemes .queryOrEnd { p with queries := p.queries ++ [a] } := by
  intro rule atom
  refine ⟨rule, a, (reads_atom (r := .query) ?_ ha).trans (.of_kind ?_)⟩
  · intro t ht
    rcases hc with rfl | rfl <;> simp [State.step, ht]
  · intro t ht
    simp [State.step, State.closed, State.marked, ht]

theorem reads_bodyAtom (p : Program) (rule : Rule) (atom : Atom) {a : Atom}
    (ha : a.Over [.identifier, .constant]) :
    Reads ⟨.name .body, p, rule, atom⟩ a.lexemes ⟨.mark .body, p, rule, a⟩ :=
  reads_atom (r := .body) (fun t ht => by simp [State.step, ht]) ha

theorem reads_body (p : Program) (head : Atom) (before as : List Atom) (atom : Atom)
    (has : ∀ a ∈ as, a.Over [.identifier, .constant]) :
    ∃ atom', Reads ⟨.name .body, p, ⟨head, before⟩, atom⟩ (commaTerminated (as.map (·.lexemes)))
      ⟨.name .body, p, ⟨head, before ++ as⟩, atom'⟩ := by
  induction as generalizing before atom with
  | nil => exact ⟨atom, by simpa [commaTerminated] using Reads.refl _⟩
  | cons a as ih =>
      obtain ⟨ha, has⟩ := List.forall_mem_cons.mp has
      have hatom := reads_bodyAtom p ⟨head, before⟩ atom ha
      have hcomma : Reads ⟨.mark .body, p, ⟨head, before⟩, a⟩ [mark .comma]
          ⟨.name .body, p, ⟨head, before ++ [a]⟩, a⟩ :=
        .of_kind fun t ht => by simp [State.step, State.marked, ht]
      obtain ⟨atom', hrest⟩ := ih (before ++ [a]) a has
      exact ⟨atom', by simpa [commaTerminated] using (hatom.trans hcomma).trans hrest⟩

theorem leads_rule (p : Program) {rule : Rule} (hrule : rule.Grammatical) :
    Leads .ruleOrQueries p rule.lexemes .ruleOrQueries { p with rules := p.rules ++ [rule] } := by
  intro lastRule lastAtom
  obtain ⟨head, body⟩ := rule
  obtain ⟨hhead, hne, hbody⟩ := hrule
  obtain ⟨as, a, rfl⟩ : ∃ as a, body = as ++ [a] :=
    ⟨_, _, (List.dropLast_concat_getLast hne).symm⟩
  obtain ⟨has, ha⟩ := List.forall_mem_append.mp hbody
  have hhead' : Reads ⟨.ruleOrQueries, p, lastRule, lastAtom⟩ head.lexemes
      ⟨.mark .head, p, lastRule, head⟩ :=
    reads_atom (r := .head) (fun t ht => by simp [State.step, ht]) hhead
  have hmark : Reads ⟨.mark .head, p, lastRule, head⟩ [mark .colonDash]
      ⟨.name .body, p, ⟨head, []⟩, head⟩ :=
    .of_kind fun t ht => by simp [State.step, State.marked, ht]
  obtain ⟨atom', hbefore⟩ := reads_body p head [] as head has
  have hlast := reads_bodyAtom p ⟨head, as⟩ atom' (ha a (List.mem_singleton.mpr rfl))
  have hperiod : Reads ⟨.mark .body, p, ⟨head, as⟩, a⟩ [mark .period]
      ⟨.ruleOrQueries, { p with rules := p.rules ++ [⟨head, as ++ [a]⟩] }, ⟨head, as⟩, a⟩ :=
    .of_kind fun t ht => by simp [State.step, State.marked, ht]
  have hall := (((hhead'.trans hmark).trans hbefore).trans hlast).trans hperiod
  refine ⟨⟨head, as⟩, a, ?_⟩
  simpa [Rule.lexemes, Lexeme.commaSeparated_concat] using hall

theorem leads_program {p : Program} (h : p.Grammatical) :
    Leads .opening .empty (p.lexemesThrough .queries) .queryOrEnd p := by
  obtain ⟨schemes, facts, rules, queries⟩ := p
  obtain ⟨hschemesNe, hschemes, hfacts, hrules, hqueriesNe, hqueries⟩ := h
  obtain ⟨scheme, schemes, rfl⟩ := List.exists_cons_of_ne_nil hschemesNe
  obtain ⟨query, queries, rfl⟩ := List.exists_cons_of_ne_nil hqueriesNe
  obtain ⟨hscheme, hschemes⟩ := List.forall_mem_cons.mp hschemes
  obtain ⟨hquery, hqueries⟩ := List.forall_mem_cons.mp hqueries
  have hscheme₁ : Leads .opening .empty ([mark .schemes] ++ [mark .colon]) (.name .scheme) .empty :=
    leads_title .schemes (fun _ _ t ht => if_pos ht) fun _ _ => rfl
  have hscheme₂ : Leads (.name .scheme) .empty scheme.lexemes .schemeOrFacts
      ⟨[scheme], [], [], []⟩ :=
    leads_scheme (.inl rfl) .empty hscheme
  have hscheme₃ := leads_flatMap (fun before => ⟨before, [], [], []⟩)
    (fun before _ => leads_scheme (.inr rfl) ⟨before, [], [], []⟩) [scheme] schemes hschemes
  have hfact₁ : Leads .schemeOrFacts ⟨scheme :: schemes, [], [], []⟩
      ([mark .facts] ++ [mark .colon]) .factOrRules ⟨scheme :: schemes, [], [], []⟩ :=
    leads_title .facts (fun _ _ t ht => by simp_all [State.step, Section.keyword]) fun _ _ => rfl
  have hfact₂ := leads_flatMap (fun before => ⟨scheme :: schemes, before, [], []⟩)
    (fun before _ => leads_fact ⟨scheme :: schemes, before, [], []⟩) [] facts hfacts
  have hrule₁ : Leads .factOrRules ⟨scheme :: schemes, facts, [], []⟩
      ([mark .rules] ++ [mark .colon]) .ruleOrQueries ⟨scheme :: schemes, facts, [], []⟩ :=
    leads_title .rules (fun _ _ t ht => by simp_all [State.step, Section.keyword]) fun _ _ => rfl
  have hrule₂ := leads_flatMap (fun before => ⟨scheme :: schemes, facts, before, []⟩)
    (fun before _ => leads_rule ⟨scheme :: schemes, facts, before, []⟩) [] rules hrules
  have hquery₁ : Leads .ruleOrQueries ⟨scheme :: schemes, facts, rules, []⟩
      ([mark .queries] ++ [mark .colon]) (.name .query) ⟨scheme :: schemes, facts, rules, []⟩ :=
    leads_title .queries (fun _ _ t ht => by simp_all [State.step, Section.keyword]) fun _ _ => rfl
  have hquery₂ : Leads (.name .query) ⟨scheme :: schemes, facts, rules, []⟩ query.queryLexemes
      .queryOrEnd ⟨scheme :: schemes, facts, rules, [query]⟩ :=
    leads_query (.inl rfl) _ hquery
  have hquery₃ := leads_flatMap (fun before => ⟨scheme :: schemes, facts, rules, before⟩)
    (fun before _ => leads_query (.inr rfl) ⟨scheme :: schemes, facts, rules, before⟩)
    [query] queries hqueries
  have hall := (((((((((hscheme₁.trans hscheme₂).trans hscheme₃).trans hfact₁).trans hfact₂).trans
    hrule₁).trans hrule₂).trans hquery₁).trans hquery₂).trans hquery₃)
  simpa [Program.lexemesThrough, Program.lexemesBefore, Program.titledLexemes,
    Program.entryLexemes, Section.keyword] using hall

/-- Tokens with the lexemes of a program are read as this program. -/
theorem run_of_lexemes {p : Program} (h : p.Grammatical) (last : Token) {ts : List Token}
    (hts : ts.map (·.lexeme) = p.lexemes) (rest : List Token) :
    run last .initial (ts ++ rest) = (.ok p, rest) := by
  rw [Program.lexemes_eq_through] at hts
  obtain ⟨us, vs, rfl, hus, hvs⟩ := List.map_eq_append_iff.mp hts
  obtain ⟨t, rfl, ht⟩ := List.map_eq_singleton_iff.mp hvs
  obtain ⟨rule, atom, hreads⟩ := leads_program h ⟨⟨[], []⟩, []⟩ ⟨[], []⟩
  have heof : t.kind = .eof := congrArg Lexeme.kind ht
  have hdone : State.step ⟨.queryOrEnd, p, rule, atom⟩ t = .done p := by
    simp [State.step, heof]
  rw [List.append_assoc, State.initial, hreads last us _ hus, List.singleton_append, run, hdone]

end Parser

/-! ## Lists of tokens -/

namespace Grammar

/-- The tokens that count: comments are left out, and an end of the text is
added unless the last token left is one. -/
def significant (tokens : List Token) : List Token :=
  let kept := tokens.filter (·.kind ≠ .comment)
  if kept.getLast?.map (·.kind) = some .eof then kept else kept ++ [Cursor.endMark]

theorem rest_ofTokens (tokens : List Token) :
    (Cursor.ofTokens tokens).rest = significant tokens := by
  have hkept : tokens.filter (·.kind != .comment) = tokens.filter (·.kind ≠ .comment) :=
    List.filter_congr fun t _ => by by_cases h : t.kind = .comment <;> simp [h]
  rw [Cursor.ofTokens, significant, hkept]
  cases hlast : (tokens.filter (·.kind ≠ .comment)).getLast? with
  | none =>
      rw [List.getLast?_eq_none_iff.mp hlast]
      rfl
  | some last => by_cases heof : last.kind = .eof <;> simp [heof]

/-- The tokens of a text end with the end of the text, so nothing is added to them. -/
theorem significant_lex_eq_filter (source : Bytes) :
    significant (lex source) = (lex source).filter (·.kind ≠ .comment) := by
  obtain ⟨front, last, hlex, hlast, -⟩ := lex_eq_concat source
  rw [significant, hlex]
  simp [hlast]

theorem significant_lex (source : Bytes) :
    ∃ front last, significant (lex source) = front ++ [last] ∧ last.kind = .eof ∧
      ∀ t ∈ front, t.kind ≠ .eof := by
  obtain ⟨front, last, hlex, hlast, hfront⟩ := lex_eq_concat source
  refine ⟨front.filter (·.kind ≠ .comment), last, ?_, hlast, ?_⟩
  · rw [significant_lex_eq_filter, hlex, List.filter_append]
    simp [hlast]
  · intro t ht
    exact hfront t (List.mem_filter.mp ht).1

end Grammar

namespace Program

/-- The program is the one that the tokens spell: their kinds are derived by the
grammar, and their texts are the names and terms of the program. -/
structure ReadOff (p : Program) (front : List Token) : Prop where
  derived : front.map (·.kind) ∈ Grammar.program
  grammatical : p.Grammatical
  lexemes : p.lexemes = front.map (·.lexeme)

theorem readOff_iff {p : Program} {front : List Token} :
    p.ReadOff front ↔ p.Grammatical ∧ p.lexemes = front.map (·.lexeme) := by
  constructor
  · rintro ⟨-, hgrammatical, hlexemes⟩
    exact ⟨hgrammatical, hlexemes⟩
  · rintro ⟨hgrammatical, hlexemes⟩
    exact ⟨(Grammar.describes_program front).mpr ⟨p, hgrammatical, hlexemes⟩, hgrammatical,
      hlexemes⟩

theorem exists_readOff_iff (front : List Token) :
    (∃ p : Program, p.ReadOff front) ↔ front.map (·.kind) ∈ Grammar.program := by
  rw [Grammar.describes_program front]
  exact exists_congr fun _ => readOff_iff

/-- Tokens are read as the program that some first part of them spells. -/
theorem ofTokens_eq_ok_iff {tokens : List Token} {p : Program} :
    ofTokens tokens = .ok p ↔
      ∃ front, front <+: Grammar.significant tokens ∧ p.ReadOff front := by
  have hrun : ofTokens tokens =
      (Parser.run (Cursor.ofTokens tokens).last .initial (Grammar.significant tokens)).1 := by
    rw [← Grammar.rest_ofTokens]
    rfl
  rw [hrun]
  constructor
  · intro h
    obtain ⟨hgrammatical, front, hfront, hlexemes⟩ :=
      Parser.lexemes_of_run Parser.State.spelled_initial (Prod.ext h rfl)
    exact ⟨front, ⟨_, hfront.symm⟩, readOff_iff.mpr ⟨hgrammatical, hlexemes⟩⟩
  · rintro ⟨front, ⟨rest, hfront⟩, hread⟩
    rw [← hfront, Parser.run_of_lexemes hread.grammatical _ hread.lexemes.symm]

/-- A first part that is derived ends with the end of the text, so in the tokens
of a text it is all of them. -/
theorem ReadOff.eq_significant_lex {p : Program} {front : List Token} (h : p.ReadOff front)
    {source : Bytes} (hfront : front <+: Grammar.significant (lex source)) :
    front = Grammar.significant (lex source) := by
  obtain ⟨before, last, hsignificant, hlast, hbefore⟩ := Grammar.significant_lex source
  have hlexemes := h.lexemes
  rw [lexemes_eq_through] at hlexemes
  obtain ⟨us, vs, rfl, -, hvs⟩ := List.map_eq_append_iff.mp hlexemes.symm
  obtain ⟨t, rfl, ht⟩ := List.map_eq_singleton_iff.mp hvs
  have heof : t.kind = .eof := congrArg Lexeme.kind ht
  rw [hsignificant] at hfront ⊢
  rcases List.prefix_concat_iff.mp hfront with hall | hshort
  · exact hall
  · have hmem : t ∈ before := hshort.subset (by simp)
    exact absurd heof (hbefore t hmem)

/-- The reading of tokens accepts exactly the grammar. Tokens are accepted when
the kinds of those that count begin with a word of the grammar, and a text when
the kinds of its tokens are one; the program is the one that is read off. -/
theorem ofTokens_accepts_grammar :
    (∀ tokens : List Token, (∃ p, ofTokens tokens = .ok p) ↔
      ∃ word ∈ Grammar.program, word <+: (Grammar.significant tokens).map (·.kind)) ∧
    (∀ source : Bytes, (∃ p, ofTokens (lex source) = .ok p) ↔
      (Grammar.significant (lex source)).map (·.kind) ∈ Grammar.program) ∧
    (∀ (tokens : List Token) (p : Program), ofTokens tokens = .ok p ↔
      ∃ front, front <+: Grammar.significant tokens ∧ p.ReadOff front) ∧
    ∀ (source : Bytes) (p : Program), ofTokens (lex source) = .ok p ↔
      p.ReadOff (Grammar.significant (lex source)) := by
  have htext : ∀ (source : Bytes) (p : Program), ofTokens (lex source) = .ok p ↔
      p.ReadOff (Grammar.significant (lex source)) := by
    intro source p
    rw [ofTokens_eq_ok_iff]
    constructor
    · rintro ⟨front, hfront, hread⟩
      exact hread.eq_significant_lex hfront ▸ hread
    · exact fun hread => ⟨_, List.prefix_rfl, hread⟩
  refine ⟨?_, ?_, fun _ _ => ofTokens_eq_ok_iff, htext⟩
  · intro tokens
    simp only [ofTokens_eq_ok_iff]
    constructor
    · rintro ⟨p, front, hfront, hread⟩
      exact ⟨front.map (·.kind), hread.derived, hfront.map _⟩
    · rintro ⟨word, hword, hprefix⟩
      obtain ⟨front, hfront, rfl⟩ := List.prefix_map_iff.mp hprefix
      obtain ⟨p, hread⟩ := (exists_readOff_iff front).mpr hword
      exact ⟨p, front, hfront, hread⟩
  · intro source
    simp only [htext, exists_readOff_iff]

end Program

end LeastModel
