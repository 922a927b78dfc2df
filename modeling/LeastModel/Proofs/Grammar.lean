import LeastModel.Program.Parser
import Mathlib.Computability.Language

/-!
# The grammar of programs

A program is written as a list of tokens, of which only the kinds decide whether
it is well written: the grammar is a language of lists of kinds
(`Grammar.program`). What the text of the tokens is good for shows in the
*lexemes* of a program: the list of the kinds that its tokens have, where names
and constants carry their text (`Program.lexemes`).

The two descriptions belong together. Tokens have kinds out of the grammar
exactly when their lexemes are those of a program of the right shape
(`Grammar.describes_program`), which is then the program that they spell.
-/

open scoped Computability

namespace LeastModel

/-- Separated items end with the last one, before which each is followed by the separator. -/
theorem List.intercalate_concat {α : Type} (separator : List α) (items : List (List α))
    (item : List α) :
    separator.intercalate (items ++ [item]) = items.flatMap (· ++ separator) ++ item := by
  induction items with
  | nil => simp
  | cons first items ih =>
      rw [List.cons_append, List.intercalate_cons_of_ne_nil (by simp), ih]
      simp

/-! ## Kinds of tokens -/

namespace Grammar

/-- One token, of one of the given kinds. -/
def oneOf (kinds : List TokenKind) : Language TokenKind := {word | ∃ k ∈ kinds, word = [k]}

/-- `x {, x}` -/
def separated (x : Language TokenKind) : Language TokenKind := x * ({[.comma]} * x)∗

/-- `ID ( term {, term} )` -/
def atom (terms : List TokenKind) : Language TokenKind :=
  {[.identifier]} * {[.leftParen]} * separated (oneOf terms) * {[.rightParen]}

/-- `ID ( ID {, ID} )` -/
def scheme : Language TokenKind := atom [.identifier]

/-- `ID ( STRING {, STRING} ) .` -/
def fact : Language TokenKind := atom [.constant] * {[.period]}

/-- `ID ( ID {, ID} ) :- atom {, atom} .` -/
def rule : Language TokenKind :=
  atom [.identifier] * {[.colonDash]} * separated (atom [.identifier, .constant]) * {[.period]}

/-- `atom ?` -/
def query : Language TokenKind := atom [.identifier, .constant] * {[.questionMark]}

/-- Four titled sections, of which the first and the last are not empty, and the
end of the text. -/
def program : Language TokenKind :=
  {[.schemes]} * {[.colon]} * (scheme * scheme∗) *
    {[.facts]} * {[.colon]} * fact∗ *
    {[.rules]} * {[.colon]} * rule∗ *
    {[.queries]} * {[.colon]} * (query * query∗) * {[.eof]}

end Grammar

/-! ## Lexemes -/

/-- The kinds of tokens whose text is part of a program. -/
def TokenKind.carriesText (k : TokenKind) : Bool := k = .identifier ∨ k = .constant

/-- What of a token is part of a program. -/
structure Lexeme where
  kind : TokenKind
  text : Bytes
  deriving DecidableEq

/-- A lexeme without a text. -/
def Lexeme.mark (k : TokenKind) : Lexeme := ⟨k, []⟩

/-- The lexeme of a token, which has its text only where the text matters. -/
def Lexeme.of (k : TokenKind) (text : Bytes) : Lexeme := ⟨k, if k.carriesText then text else []⟩

open Lexeme (mark)

theorem Lexeme.of_eq_mark {k : TokenKind} (hk : k.carriesText = false) (text : Bytes) :
    Lexeme.of k text = mark k := by
  simp [Lexeme.of, mark, hk]

theorem Lexeme.of_eq_mk {k : TokenKind} (hk : k.carriesText = true) (text : Bytes) :
    Lexeme.of k text = ⟨k, text⟩ := by
  simp [Lexeme.of, hk]

def Token.lexeme (t : Token) : Lexeme := .of t.kind t.value

@[simp]
theorem Token.kind_lexeme (t : Token) : t.lexeme.kind = t.kind := rfl

theorem Token.lexeme_eq_mark {t : Token} {k : TokenKind} (h : t.kind = k)
    (hk : k.carriesText = false) : t.lexeme = mark k := by
  rw [lexeme, h, Lexeme.of_eq_mark hk]

theorem Token.lexeme_eq_mk {t : Token} {k : TokenKind} (h : t.kind = k)
    (hk : k.carriesText = true) : t.lexeme = ⟨k, t.value⟩ := by
  rw [lexeme, h, Lexeme.of_eq_mk hk]

theorem Token.of_lexeme_eq {t : Token} {k : TokenKind} {v : Bytes} (hk : k.carriesText = true)
    (h : t.lexeme = ⟨k, v⟩) : t.kind = k ∧ t.value = v := by
  have hkind : t.kind = k := congrArg Lexeme.kind h
  rw [lexeme_eq_mk hkind hk] at h
  exact ⟨hkind, congrArg Lexeme.text h⟩

/-- Lists of lexemes with a comma between neighbours. -/
def Lexeme.commaSeparated (items : List (List Lexeme)) : List Lexeme :=
  [mark .comma].intercalate items

def Term.lexeme (t : Term) : Lexeme :=
  ⟨if t.isConstant then .constant else .identifier, t.value⟩

namespace Atom

def lexemes (a : Atom) : List Lexeme :=
  [⟨.identifier, a.name⟩] ++ [mark .leftParen] ++
    Lexeme.commaSeparated (a.terms.map fun t => [t.lexeme]) ++ [mark .rightParen]

def factLexemes (a : Atom) : List Lexeme := a.lexemes ++ [mark .period]

def queryLexemes (a : Atom) : List Lexeme := a.lexemes ++ [mark .questionMark]

end Atom

def Rule.lexemes (r : Rule) : List Lexeme :=
  r.head.lexemes ++ [mark .colonDash] ++
    Lexeme.commaSeparated (r.body.map (·.lexemes)) ++ [mark .period]

/-- The lexemes of a program, section by section. -/
def Program.lexemes (p : Program) : List Lexeme :=
  [mark .schemes] ++ [mark .colon] ++ p.schemes.flatMap (·.lexemes) ++
    [mark .facts] ++ [mark .colon] ++ p.facts.flatMap (·.factLexemes) ++
    [mark .rules] ++ [mark .colon] ++ p.rules.flatMap (·.lexemes) ++
    [mark .queries] ++ [mark .colon] ++ p.queries.flatMap (·.queryLexemes) ++ [mark .eof]

/-! ## The shape of programs -/

/-- The term is an identifier or a constant, as the kinds permit. -/
def Term.Among (kinds : List TokenKind) (t : Term) : Prop :=
  t.kind = .identifier ∧ .identifier ∈ kinds ∨ t.kind = .constant ∧ .constant ∈ kinds

theorem Term.Among.cases {kinds : List TokenKind} {t : Term} (h : t.Among kinds) :
    (∃ v, t = .identifier v ∧ .identifier ∈ kinds) ∨ ∃ v, t = .constant v ∧ .constant ∈ kinds := by
  obtain ⟨kind, value⟩ := t
  rcases h with ⟨rfl, hmem⟩ | ⟨rfl, hmem⟩
  · exact .inl ⟨value, rfl, hmem⟩
  · exact .inr ⟨value, rfl, hmem⟩

/-- The atom has terms, and only such as the kinds permit. -/
structure Atom.Over (kinds : List TokenKind) (a : Atom) : Prop where
  ne_nil : a.terms ≠ []
  among : ∀ t ∈ a.terms, t.Among kinds

structure Rule.Grammatical (r : Rule) : Prop where
  head : r.head.Over [.identifier]
  body_ne_nil : r.body ≠ []
  body : ∀ a ∈ r.body, a.Over [.identifier, .constant]

/-- A program with the shape that the grammar asks for. -/
structure Program.Grammatical (p : Program) : Prop where
  schemes_ne_nil : p.schemes ≠ []
  schemes : ∀ a ∈ p.schemes, a.Over [.identifier]
  facts : ∀ a ∈ p.facts, a.Over [.constant]
  rules : ∀ r ∈ p.rules, r.Grammatical
  queries_ne_nil : p.queries ≠ []
  queries : ∀ a ∈ p.queries, a.Over [.identifier, .constant]

/-! ## Languages and what they describe -/

namespace Grammar

/-- Tokens have kinds out of `l` exactly when they spell a value with the
property `good`. -/
def Describes {α : Type} (l : Language TokenKind) (good : α → Prop) (lexemes : α → List Lexeme) :
    Prop :=
  ∀ ts : List Token, ts.map (·.kind) ∈ l ↔ ∃ a, good a ∧ lexemes a = ts.map (·.lexeme)

theorem describes_oneOf
    {α : Type} {kinds : List TokenKind} {good : α → Prop} {lexeme : α → Lexeme}
    (h : ∀ t : Token, t.kind ∈ kinds ↔ ∃ a, good a ∧ lexeme a = t.lexeme) :
    Describes (oneOf kinds) good fun a => [lexeme a] := by
  intro ts
  constructor
  · rintro ⟨k, hk, hword⟩
    obtain ⟨t, rfl, rfl⟩ := List.map_eq_singleton_iff.mp hword
    obtain ⟨a, ha, hlexeme⟩ := (h t).mp hk
    exact ⟨a, ha, by simp [hlexeme]⟩
  · rintro ⟨a, ha, hlexemes⟩
    obtain ⟨t, rfl, hlexeme⟩ := List.map_eq_singleton_iff.mp hlexemes.symm
    exact ⟨t.kind, (h t).mpr ⟨a, ha, hlexeme.symm⟩, rfl⟩

theorem describes_mark {k : TokenKind} (h : k.carriesText = false) :
    Describes {[k]} (fun _ : Unit => True) fun _ => [mark k] := by
  have hkind : ({[k]} : Language TokenKind) = oneOf [k] := by
    ext word
    change word = [k] ↔ ∃ k' ∈ [k], word = [k']
    simp
  rw [hkind]
  apply describes_oneOf
  intro t
  constructor
  · intro ht
    cases List.mem_singleton.mp ht
    exact ⟨(), trivial, (Token.lexeme_eq_mark rfl h).symm⟩
  · rintro ⟨-, -, hlexeme⟩
    exact List.mem_singleton.mpr (congrArg Lexeme.kind hlexeme).symm

theorem describes_name :
    Describes {[.identifier]} (fun _ : Bytes => True) fun name => [⟨.identifier, name⟩] := by
  intro ts
  constructor
  · intro hword
    obtain ⟨t, rfl, hkind⟩ := List.map_eq_singleton_iff.mp hword
    exact ⟨t.value, trivial, congrArg ([·]) (Token.lexeme_eq_mk hkind rfl).symm⟩
  · rintro ⟨name, -, hlexemes⟩
    obtain ⟨t, rfl, hlexeme⟩ := List.map_eq_singleton_iff.mp hlexemes.symm
    exact congrArg (fun x => [x.kind]) hlexeme

theorem describes_term {kinds : List TokenKind} (h : ∀ k ∈ kinds, k.carriesText = true) :
    Describes (oneOf kinds) (Term.Among kinds) fun t => [t.lexeme] := by
  apply describes_oneOf
  intro t
  constructor
  · intro ht
    rcases of_decide_eq_true (h t.kind ht) with hkind | hkind
    · rw [hkind] at ht
      exact ⟨.identifier t.value, .inl ⟨rfl, ht⟩, (Token.lexeme_eq_mk hkind rfl).symm⟩
    · rw [hkind] at ht
      exact ⟨.constant t.value, .inr ⟨rfl, ht⟩, (Token.lexeme_eq_mk hkind rfl).symm⟩
  · rintro ⟨u, hu, hlexeme⟩
    rw [← Token.kind_lexeme, ← hlexeme]
    obtain ⟨v, rfl, hmem⟩ | ⟨v, rfl, hmem⟩ := hu.cases
    · exact hmem
    · exact hmem

section Combinators

variable {α β : Type} {l l' : Language TokenKind} {good : α → Prop} {good' : β → Prop}
  {lexemes : α → List Lexeme} {lexemes' : β → List Lexeme}

theorem Describes.mul (h : Describes l good lexemes) (h' : Describes l' good' lexemes') :
    Describes (l * l') (fun x : α × β => good x.1 ∧ good' x.2)
      fun x => lexemes x.1 ++ lexemes' x.2 := by
  intro ts
  rw [Language.mem_mul]
  constructor
  · rintro ⟨first, hfirst, second, hsecond, hword⟩
    obtain ⟨us, vs, rfl, rfl, rfl⟩ := List.map_eq_append_iff.mp hword.symm
    obtain ⟨a, ha, hlexemes⟩ := (h us).mp hfirst
    obtain ⟨b, hb, hlexemes'⟩ := (h' vs).mp hsecond
    refine ⟨(a, b), ⟨ha, hb⟩, ?_⟩
    rw [List.map_append, ← hlexemes, ← hlexemes']
  · rintro ⟨⟨a, b⟩, ⟨ha, hb⟩, hlexemes⟩
    obtain ⟨us, vs, rfl, hus, hvs⟩ := List.map_eq_append_iff.mp hlexemes.symm
    exact ⟨us.map (·.kind), (h us).mpr ⟨a, ha, hus.symm⟩,
      vs.map (·.kind), (h' vs).mpr ⟨b, hb, hvs.symm⟩, List.map_append.symm⟩

theorem Describes.image (h : Describes l good lexemes) (f : α → β)
    (hgood : ∀ b, good' b ↔ ∃ a, good a ∧ f a = b) (hlexemes : ∀ a, lexemes' (f a) = lexemes a) :
    Describes l good' lexemes' := by
  intro ts
  rw [h ts]
  constructor
  · rintro ⟨a, ha, hts⟩
    exact ⟨f a, (hgood (f a)).mpr ⟨a, ha, rfl⟩, (hlexemes a).trans hts⟩
  · rintro ⟨b, hb, hts⟩
    obtain ⟨a, ha, rfl⟩ := (hgood b).mp hb
    exact ⟨a, ha, (hlexemes a).symm.trans hts⟩

theorem Describes.mul_mark (h : Describes l good lexemes) {k : TokenKind}
    (hk : k.carriesText = false) :
    Describes (l * {[k]}) good fun a => lexemes a ++ [mark k] :=
  (h.mul (describes_mark hk)).image Prod.fst (by simp) (by simp)

theorem Describes.mark_mul (h : Describes l good lexemes) {k : TokenKind}
    (hk : k.carriesText = false) :
    Describes ({[k]} * l) good fun a => mark k :: lexemes a :=
  ((describes_mark hk).mul h).image Prod.snd (by simp) (by simp)

theorem Describes.star (h : Describes l good lexemes) :
    Describes l∗ (fun as : List α => ∀ a ∈ as, good a) fun as => as.flatMap lexemes := by
  intro ts
  rw [Language.mem_kstar]
  constructor
  · rintro ⟨words, hword, hwords⟩
    induction words generalizing ts with
    | nil =>
        have hnil : ts = [] := List.map_eq_nil_iff.mp hword
        exact ⟨[], by simp, by simp [hnil]⟩
    | cons word words ih =>
        obtain ⟨us, vs, rfl, rfl, hvs⟩ := List.map_eq_append_iff.mp hword
        obtain ⟨hfirst, hothers⟩ := List.forall_mem_cons.mp hwords
        obtain ⟨a, ha, hus⟩ := (h us).mp hfirst
        obtain ⟨as, has, hlexemes⟩ := ih vs hvs hothers
        refine ⟨a :: as, List.forall_mem_cons.mpr ⟨ha, has⟩, ?_⟩
        rw [List.map_append, ← hus, ← hlexemes]
        exact List.flatMap_cons
  · rintro ⟨as, has, hlexemes⟩
    induction as generalizing ts with
    | nil =>
        have hnil : ts = [] := List.map_eq_nil_iff.mp hlexemes.symm
        exact ⟨[], by simp [hnil], by simp⟩
    | cons a as ih =>
        obtain ⟨us, vs, rfl, hus, hvs⟩ := List.map_eq_append_iff.mp hlexemes.symm
        obtain ⟨ha, has⟩ := List.forall_mem_cons.mp has
        obtain ⟨words, hword, hwords⟩ := ih vs has hvs.symm
        refine ⟨us.map (·.kind) :: words, by simp [hword], ?_⟩
        exact List.forall_mem_cons.mpr ⟨(h us).mpr ⟨a, ha, hus.symm⟩, hwords⟩

theorem Describes.plus (h : Describes l good lexemes) :
    Describes (l * l∗) (fun as : List α => as ≠ [] ∧ ∀ a ∈ as, good a)
      fun as => as.flatMap lexemes := by
  refine (h.mul h.star).image (fun x => x.1 :: x.2) ?_ (by simp)
  intro as
  constructor
  · rintro ⟨hne, has⟩
    obtain ⟨a, as, rfl⟩ := List.exists_cons_of_ne_nil hne
    exact ⟨(a, as), List.forall_mem_cons.mp has, rfl⟩
  · rintro ⟨⟨a, as⟩, ⟨ha, has⟩, rfl⟩
    exact ⟨List.cons_ne_nil a as, List.forall_mem_cons.mpr ⟨ha, has⟩⟩

theorem Describes.separated (h : Describes l good lexemes) :
    Describes (separated l) (fun as : List α => as ≠ [] ∧ ∀ a ∈ as, good a)
      fun as => Lexeme.commaSeparated (as.map lexemes) := by
  have hmore := (h.mark_mul (k := .comma) rfl).star
  refine (h.mul hmore).image (fun x => x.1 :: x.2) ?_ ?_
  · intro as
    constructor
    · rintro ⟨hne, has⟩
      obtain ⟨a, as, rfl⟩ := List.exists_cons_of_ne_nil hne
      exact ⟨(a, as), List.forall_mem_cons.mp has, rfl⟩
    · rintro ⟨⟨a, as⟩, ⟨ha, has⟩, rfl⟩
      exact ⟨List.cons_ne_nil a as, List.forall_mem_cons.mpr ⟨ha, has⟩⟩
  · rintro ⟨a, as⟩
    induction as generalizing a with
    | nil => simp [Lexeme.commaSeparated]
    | cons b as ih =>
        have hrest := ih b
        simp only [Lexeme.commaSeparated, List.map_cons] at hrest ⊢
        rw [List.intercalate_cons_cons, hrest]
        simp

end Combinators

/-! ## Atoms, rules and programs -/

theorem describes_atom (kinds : List TokenKind) (h : ∀ k ∈ kinds, k.carriesText = true) :
    Describes (atom kinds) (Atom.Over kinds) Atom.lexemes := by
  have hparts := ((describes_name.mul_mark (k := .leftParen) rfl).mul
    (describes_term h).separated).mul_mark (k := .rightParen) rfl
  refine hparts.image (fun x => ⟨x.1, x.2⟩) ?_ fun x => rfl
  rintro ⟨name, terms⟩
  constructor
  · rintro ⟨hne, hterms⟩
    exact ⟨(name, terms), ⟨trivial, hne, hterms⟩, rfl⟩
  · rintro ⟨parts, ⟨-, hne, hterms⟩, hatom⟩
    cases hatom
    exact ⟨hne, hterms⟩

theorem describes_scheme : Describes scheme (Atom.Over [.identifier]) Atom.lexemes :=
  describes_atom _ (by decide)

theorem describes_fact : Describes fact (Atom.Over [.constant]) Atom.factLexemes :=
  (describes_atom _ (by decide)).mul_mark rfl

theorem describes_query : Describes query (Atom.Over [.identifier, .constant]) Atom.queryLexemes :=
  (describes_atom _ (by decide)).mul_mark rfl

theorem describes_rule : Describes rule Rule.Grammatical Rule.lexemes := by
  have hbody := (describes_atom [.identifier, .constant] (by decide)).separated
  have hparts := ((describes_scheme.mul_mark (k := .colonDash) rfl).mul hbody).mul_mark
    (k := .period) rfl
  refine hparts.image (fun x => ⟨x.1, x.2⟩) ?_ fun x => rfl
  rintro ⟨head, body⟩
  constructor
  · rintro ⟨hhead, hne, hbody⟩
    exact ⟨(head, body), ⟨hhead, hne, hbody⟩, rfl⟩
  · rintro ⟨parts, ⟨hhead, hne, hbody⟩, hrule⟩
    cases hrule
    exact ⟨hhead, hne, hbody⟩

/-- Tokens have kinds out of the grammar exactly when they spell a program of the
right shape. -/
theorem describes_program : Describes program Program.Grammatical Program.lexemes := by
  have hschemes := ((describes_mark (k := .schemes) rfl).mul_mark (k := .colon) rfl).mul
    describes_scheme.plus
  have hfacts := ((hschemes.mul_mark (k := .facts) rfl).mul_mark (k := .colon) rfl).mul
    describes_fact.star
  have hrules := ((hfacts.mul_mark (k := .rules) rfl).mul_mark (k := .colon) rfl).mul
    describes_rule.star
  have hqueries := ((hrules.mul_mark (k := .queries) rfl).mul_mark (k := .colon) rfl).mul
    describes_query.plus
  refine (hqueries.mul_mark (k := .eof) rfl).image
    (fun x => ⟨x.1.1.1.2, x.1.1.2, x.1.2, x.2⟩) ?_ fun x => rfl
  rintro ⟨schemes, facts, rules, queries⟩
  constructor
  · rintro ⟨hschemes, hscheme, hfact, hrule, hqueries, hquery⟩
    exact ⟨(((((), schemes), facts), rules), queries),
      ⟨⟨⟨⟨trivial, hschemes, hscheme⟩, hfact⟩, hrule⟩, hqueries, hquery⟩, rfl⟩
  · rintro ⟨parts, ⟨⟨⟨⟨-, hschemes, hscheme⟩, hfact⟩, hrule⟩, hqueries, hquery⟩, hprogram⟩
    cases hprogram
    exact ⟨hschemes, hscheme, hfact, hrule, hqueries, hquery⟩

end Grammar

end LeastModel
