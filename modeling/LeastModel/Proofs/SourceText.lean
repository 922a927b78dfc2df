import LeastModel.Proofs.Acceptance
import LeastModel.Proofs.Utf8

/-!
# Programs written and read back

A program is written as a text of four sections, one entry a line, with no more
space between tokens than the form of a rule has (`Program.source`). Where its
names are words and its constants are quoted, every token of the text is found
again (`Lexes`), so the text has the lexemes of the program and is read as the
program. In the other direction whatever is read from a text can be written in
this way, since tokens have no other texts.

## Main statement

`Program.parse_source_inverse`: well-formed programs are read back from their
texts, and every program that is read is well formed.
-/

namespace LeastModel

open Lexeme (mark commaSeparated commaTerminated)

/-! ## Well-formed programs and their texts -/

/-- Identifiers are names and constants are quoted. -/
def Term.WellSpelled (t : Term) : Prop :=
  (t.kind = .identifier → IsName t.value) ∧ (t.kind = .constant → IsQuoted t.value)

theorem TermKind.identifier_ne_constant : identifier ≠ constant := by decide

theorem Term.WellSpelled.of_isName {v : Bytes} (h : IsName v) : (Term.identifier v).WellSpelled :=
  ⟨fun _ => h, fun hkind => absurd hkind TermKind.identifier_ne_constant⟩

theorem Term.WellSpelled.of_isQuoted {v : Bytes} (h : IsQuoted v) :
    (Term.constant v).WellSpelled :=
  ⟨fun hkind => absurd hkind.symm TermKind.identifier_ne_constant, fun _ => h⟩

structure Atom.WellSpelled (a : Atom) : Prop where
  name : IsName a.name
  terms : ∀ t ∈ a.terms, t.WellSpelled

namespace Program

/-- All atoms of a program, of whatever role. -/
def atoms (p : Program) : List Atom :=
  p.schemes ++ p.facts ++ p.rules.flatMap (fun r => r.head :: r.body) ++ p.queries

/-- The program has the shape that the grammar asks for, and texts that tokens
can have. -/
structure WellFormed (p : Program) : Prop where
  grammatical : p.Grammatical
  spelled : ∀ a ∈ p.atoms, a.WellSpelled

/-- The lines of the text of a program. -/
def sourceLines (p : Program) : List Bytes :=
  [("Schemes:" : Bytes)] ++ p.schemes.map (·.render) ++
    [("Facts:" : Bytes)] ++ p.facts.map (fun a => a.render ++ ("." : Bytes)) ++
    [("Rules:" : Bytes)] ++ p.rules.map (·.render) ++
    [("Queries:" : Bytes)] ++ p.queries.map (fun a => a.render ++ ("?" : Bytes))

/-- The text of a program. -/
def source (p : Program) : Bytes := Bytes.join "\n" p.sourceLines

end Program

/-! ## Byte strings and their lexemes -/

/-- A character that ends every token before it: it goes on no word, and does
not make a colon part of a longer mark. -/
def Lexer.endsToken (c : Char) : Bool := !isWordChar c && c != '-'

/-- The byte string is read as the lexemes, and reading goes on behind it. -/
def Lexes (bs : Bytes) (ws : List Lexeme) : Prop :=
  ∃ cs, bs = Utf8.encode cs ∧ ∀ rest, Lexer.lexemes (cs ++ rest) = ws ++ Lexer.lexemes rest

/-- The same, provided that what follows ends every token. -/
def LexesApart (bs : Bytes) (ws : List Lexeme) : Prop :=
  ∃ cs, bs = Utf8.encode cs ∧ ∀ rest : List Char, (∀ d ∈ rest.head?, Lexer.endsToken d = true) →
    Lexer.lexemes (cs ++ rest) = ws ++ Lexer.lexemes rest

theorem Lexes.apart {bs : Bytes} {ws : List Lexeme} (h : Lexes bs ws) : LexesApart bs ws := by
  obtain ⟨cs, rfl, hcs⟩ := h
  exact ⟨cs, rfl, fun rest _ => hcs rest⟩

theorem Lexes.append_apart {bs bs' : Bytes} {ws ws' : List Lexeme} (h : Lexes bs ws)
    (h' : LexesApart bs' ws') : LexesApart (bs ++ bs') (ws ++ ws') := by
  obtain ⟨cs, rfl, hcs⟩ := h
  obtain ⟨cs', rfl, hcs'⟩ := h'
  refine ⟨cs ++ cs', (Utf8.encode_append cs cs').symm, ?_⟩
  intro rest hrest
  rw [List.append_assoc, hcs, hcs' rest hrest, List.append_assoc]

theorem LexesApart.append {bs : Bytes} {ws : List Lexeme} (h : LexesApart bs ws) (c : Char)
    (cs' : List Char) {ws' : List Lexeme} (hends : Lexer.endsToken c = true)
    (hcs' : ∀ rest, Lexer.lexemes (c :: cs' ++ rest) = ws' ++ Lexer.lexemes rest) :
    Lexes (bs ++ Utf8.encode (c :: cs')) (ws ++ ws') := by
  obtain ⟨cs, rfl, hcs⟩ := h
  refine ⟨cs ++ c :: cs', (Utf8.encode_append cs (c :: cs')).symm, ?_⟩
  intro rest
  have hhead := hcs (c :: cs' ++ rest) (by simpa using hends)
  rw [List.append_assoc, hhead, hcs' rest, List.append_assoc]

theorem LexesApart.mark {bs : Bytes} {ws : List Lexeme} (h : LexesApart bs ws) {c : Char}
    {k : TokenKind} (hends : Lexer.endsToken c = true) (hblank : Text.isBlank c = false)
    (hk : k.carriesText = false) (hc : ∀ cs, Lexer.lexeme c cs = (k, 0)) :
    Lexes (bs ++ Utf8.encode [c]) (ws ++ [mark k]) := by
  apply h.append c [] hends
  exact fun rest => Lexer.lexemes_mark hblank hk (hc rest)

theorem LexesApart.comma {bs : Bytes} {ws : List Lexeme} (h : LexesApart bs ws) :
    Lexes (bs ++ ("," : Bytes)) (ws ++ [Lexeme.mark .comma]) :=
  h.mark (c := ',') (by decide) (by decide) rfl fun _ => rfl

theorem LexesApart.newline {bs : Bytes} {ws : List Lexeme} (h : LexesApart bs ws) :
    Lexes (bs ++ ("\n" : Bytes)) (ws ++ []) := by
  apply h.append '\n' [] (by decide)
  exact fun rest => Lexer.lexemes_of_isBlank (by decide) rest

theorem forall₂_lexesApart {α : Type} {entries : List α} {bytes : α → Bytes}
    {lexemes : α → List Lexeme} (h : ∀ a ∈ entries, LexesApart (bytes a) (lexemes a)) :
    List.Forall₂ LexesApart (entries.map bytes) (entries.map lexemes) := by
  rw [List.forall₂_map_left_iff, List.forall₂_map_right_iff, List.forall₂_same]
  exact h

theorem LexesApart.map_lexeme_lex {bs : Bytes} {ws : List Lexeme} (h : LexesApart bs ws) :
    (lex bs).map (·.lexeme) = ws ++ [Lexeme.mark .eof] := by
  obtain ⟨cs, rfl, hcs⟩ := h
  have hlexemes := hcs [] (by simp)
  rw [List.append_nil, Lexer.lexemes_nil] at hlexemes
  rw [LeastModel.map_lexeme_lex, Utf8.decode_encode, hlexemes]

theorem lexesApart_join {sep : Bytes} {sepLexemes : List Lexeme}
    (hsep : ∀ {bs ws}, LexesApart bs ws → Lexes (bs ++ sep) (ws ++ sepLexemes))
    {pieces : List Bytes} {wss : List (List Lexeme)} (h : List.Forall₂ LexesApart pieces wss) :
    LexesApart (Bytes.join sep pieces) (sepLexemes.intercalate wss) := by
  unfold Bytes.join
  induction h with
  | nil => exact ⟨[], rfl, fun _ _ => rfl⟩
  | @cons piece ws pieces wss hpiece hpieces ih =>
      cases hpieces with
      | nil => simpa using hpiece
      | cons hnext hrest =>
          rw [List.intercalate_cons_cons, List.intercalate_cons_cons]
          exact (hsep hpiece).append_apart ih

/-! ## Names, atoms, rules and titles -/

theorem lexesApart_name {bs : Bytes} (h : IsName bs) : LexesApart bs [⟨.identifier, bs⟩] := by
  obtain ⟨c, cs, rfl, hletter, hcs, hkeyword⟩ := h
  refine ⟨c :: cs, rfl, ?_⟩
  intro rest hrest
  have hwords : ∀ d ∈ cs, Lexer.isWordChar d = true := by
    intro d hd
    simpa [Lexer.isWordChar] using hcs d hd
  have hend : ∀ d ∈ rest.head?, Lexer.isWordChar d = false := by
    intro d hd
    have hends := hrest d hd
    rw [Lexer.endsToken, Bool.and_eq_true, Bool.not_eq_true'] at hends
    exact hends.1
  have hkind := (Lexer.wordKind_eq_identifier_iff (c :: cs)).mpr hkeyword
  rw [Lexer.lexemes_word hletter hwords hend, hkind]
  rfl

theorem lexes_quoted {bs : Bytes} (h : IsQuoted bs) : Lexes bs [⟨.constant, bs⟩] := by
  obtain ⟨cs, rfl, hcs⟩ := h
  exact ⟨_, rfl, Lexer.lexemes_quoted hcs⟩

theorem lexesApart_term {t : Term} {kinds : List TokenKind} (hkind : t.Among kinds)
    (h : t.WellSpelled) : LexesApart t.value [t.lexeme] := by
  obtain ⟨v, rfl, -⟩ | ⟨v, rfl, -⟩ := hkind.cases
  · exact lexesApart_name (h.1 rfl)
  · exact (lexes_quoted (h.2 rfl)).apart

theorem lexes_atom {a : Atom} {kinds : List TokenKind} (hatom : a.Over kinds)
    (h : a.WellSpelled) : Lexes a.render a.lexemes := by
  have hopen : Lexes (a.name ++ ("(" : Bytes)) ([⟨.identifier, a.name⟩] ++ [mark .leftParen]) :=
    (lexesApart_name h.name).mark (c := '(') (by decide) (by decide) rfl fun _ => rfl
  have hterms := forall₂_lexesApart fun t (ht : t ∈ a.terms) =>
    lexesApart_term (hatom.among t ht) (h.terms t ht)
  have hjoin := lexesApart_join LexesApart.comma hterms
  exact (hopen.append_apart hjoin).mark (c := ')') (by decide) (by decide) rfl fun _ => rfl

theorem lexes_fact {a : Atom} (hatom : a.Over [.constant]) (h : a.WellSpelled) :
    Lexes (a.render ++ ("." : Bytes)) a.factLexemes :=
  (lexes_atom hatom h).apart.mark (c := '.') (by decide) (by decide) rfl fun _ => rfl

theorem lexes_query {a : Atom} (hatom : a.Over [.identifier, .constant]) (h : a.WellSpelled) :
    Lexes (a.render ++ ("?" : Bytes)) a.queryLexemes :=
  (lexes_atom hatom h).apart.mark (c := '?') (by decide) (by decide) rfl fun _ => rfl

theorem lexes_rule {r : Rule} (hrule : r.Grammatical)
    (h : ∀ a, a = r.head ∨ a ∈ r.body → a.WellSpelled) : Lexes r.render r.lexemes := by
  have hmark : Lexes (r.head.render ++ (" :- " : Bytes)) (r.head.lexemes ++ [mark .colonDash]) := by
    apply (lexes_atom hrule.head (h _ (.inl rfl))).apart.append ' ' [':', '-', ' ']
      (by decide)
    intro rest
    have hblank : ∀ cs, Lexer.lexemes (' ' :: cs) = Lexer.lexemes cs :=
      Lexer.lexemes_of_isBlank (by decide)
    calc Lexer.lexemes (' ' :: ':' :: '-' :: ' ' :: rest)
        = Lexer.lexemes (':' :: '-' :: ' ' :: rest) := hblank _
      _ = mark .colonDash :: Lexer.lexemes (' ' :: rest) := Lexer.lexemes_cons (by decide) _
      _ = [mark .colonDash] ++ Lexer.lexemes rest := by rw [hblank]; rfl
  have hatoms := forall₂_lexesApart fun a (ha : a ∈ r.body) =>
    (lexes_atom (hrule.body a ha) (h a (.inr ha))).apart
  have hjoin := lexesApart_join LexesApart.comma hatoms
  exact (hmark.append_apart hjoin).mark (c := '.') (by decide) (by decide) rfl fun _ => rfl

theorem lexesApart_title (c : Char) (cs : List Char) (hc : Text.isLetter c = true)
    (hcs : cs.all Lexer.isWordChar = true)
    (hkind : (Lexer.wordKind (c :: cs)).carriesText = false) :
    LexesApart (Utf8.encode (c :: cs ++ [':']))
      [mark (Lexer.wordKind (c :: cs)), mark .colon] := by
  refine ⟨c :: cs ++ [':'], rfl, ?_⟩
  intro rest hrest
  -- What follows ends tokens, so it is no dash, and the colon stays a colon.
  have hcolon : Lexer.lexeme ':' rest = (.colon, 0) := by
    have hdash : rest.head? ≠ some '-' := fun h => absurd (hrest '-' h) (by decide)
    simp [Lexer.lexeme, hdash]
  have hend : ∀ d ∈ ([':'] ++ rest).head?, Lexer.isWordChar d = false := by
    intro d hd
    cases hd
    decide
  rw [List.append_assoc, Lexer.lexemes_word hc (List.all_eq_true.mp hcs) hend,
    Lexeme.of_eq_mark hkind, List.singleton_append, Lexer.lexemes_mark (by decide) rfl hcolon]
  rfl

/-! ## Lexemes of the parts of a program -/

theorem Lexeme.subset_commaSeparated {items : List (List Lexeme)} {item : List Lexeme}
    (h : item ∈ items) : item ⊆ commaSeparated items := by
  obtain rfl | ⟨init, last, rfl⟩ := items.eq_nil_or_concat
  · cases h
  · intro x hx
    rw [List.concat_eq_append] at h ⊢
    rw [commaSeparated_concat]
    rcases List.mem_append.mp h with hinit | hlast
    · have hmem : x ∈ commaTerminated init :=
        List.mem_flatMap_of_mem hinit (List.mem_append_left _ hx)
      exact List.mem_append_left _ hmem
    · cases List.mem_singleton.mp hlast
      exact List.mem_append_right _ hx

/-- Whether programs are written with tokens of this kind. -/
def TokenKind.inPrograms : TokenKind → Bool
  | multiply | add | comment | undefined | unterminatedConstant | unterminatedComment
  | unlisted _ => false
  | _ => true

theorem TokenKind.isError_eq_false {k : TokenKind} (h : k.inPrograms = true) :
    k.isError = false := by
  cases k with
  | undefined | unterminatedConstant | unterminatedComment => cases h
  | _ => rfl

theorem Lexeme.inPrograms_commaSeparated {items : List (List Lexeme)}
    (h : ∀ item ∈ items, ∀ x ∈ item, x.kind.inPrograms = true) :
    ∀ x ∈ commaSeparated items, x.kind.inPrograms = true := by
  obtain rfl | ⟨init, last, rfl⟩ := items.eq_nil_or_concat
  · exact nofun
  · rw [List.concat_eq_append] at h ⊢
    rw [commaSeparated_concat]
    intro x hx
    rcases List.mem_append.mp hx with hinit | hlast
    · obtain ⟨item, hitem, hx⟩ := List.mem_flatMap.mp hinit
      rcases List.mem_append.mp hx with hx | hx
      · exact h item (List.mem_append_left _ hitem) x hx
      · cases List.mem_singleton.mp hx
        decide
    · exact h last (by simp) x hlast

theorem Atom.lexeme_mem_lexemes {a : Atom} {t : Term} (h : t ∈ a.terms) :
    t.lexeme ∈ a.lexemes := by
  have hitem : [t.lexeme] ∈ a.terms.map fun t => [t.lexeme] := List.mem_map_of_mem h
  have hmem := Lexeme.subset_commaSeparated hitem (List.mem_singleton_self _)
  simp [Atom.lexemes, hmem]

theorem Atom.inPrograms (a : Atom) : ∀ x ∈ a.lexemes, x.kind.inPrograms = true := by
  have hterms : ∀ x ∈ commaSeparated (a.terms.map fun t => [t.lexeme]),
      x.kind.inPrograms = true := by
    apply Lexeme.inPrograms_commaSeparated
    intro item hitem x hx
    obtain ⟨t, -, rfl⟩ := List.mem_map.mp hitem
    cases List.mem_singleton.mp hx
    cases ht : t.isConstant <;> simp [Term.lexeme, ht, TokenKind.inPrograms]
  simpa [Atom.lexemes, mark, TokenKind.inPrograms, or_imp, forall_and] using hterms

theorem Rule.inPrograms (r : Rule) : ∀ x ∈ r.lexemes, x.kind.inPrograms = true := by
  have hbody : ∀ x ∈ commaSeparated (r.body.map (·.lexemes)), x.kind.inPrograms = true := by
    apply Lexeme.inPrograms_commaSeparated
    intro item hitem
    obtain ⟨a, -, rfl⟩ := List.mem_map.mp hitem
    exact a.inPrograms
  have hhead := r.head.inPrograms
  simpa [Rule.lexemes, mark, TokenKind.inPrograms, or_imp, forall_and] using ⟨hhead, hbody⟩

theorem Program.inPrograms (p : Program) : ∀ x ∈ p.lexemes, x.kind.inPrograms = true := by
  have hfact : ∀ a : Atom, ∀ x ∈ a.factLexemes, x.kind.inPrograms = true := fun a => by
    simpa [Atom.factLexemes, mark, TokenKind.inPrograms, or_imp, forall_and] using a.inPrograms
  have hquery : ∀ a : Atom, ∀ x ∈ a.queryLexemes, x.kind.inPrograms = true := fun a => by
    simpa [Atom.queryLexemes, mark, TokenKind.inPrograms, or_imp, forall_and] using a.inPrograms
  have hentries : ∀ {α : Type} (entries : List α) {lexemes : α → List Lexeme},
      (∀ a, ∀ x ∈ lexemes a, x.kind.inPrograms = true) →
        ∀ x ∈ entries.flatMap lexemes, x.kind.inPrograms = true := by
    intro α entries lexemes h x hx
    obtain ⟨a, -, hx⟩ := List.mem_flatMap.mp hx
    exact h a x hx
  simp only [Program.lexemes, List.forall_mem_append, List.forall_mem_singleton]
  simp only [mark, TokenKind.inPrograms, true_and, and_true]
  exact ⟨⟨⟨hentries _ Atom.inPrograms, hentries _ hfact⟩, hentries _ Rule.inPrograms⟩,
    hentries _ hquery⟩

theorem Grammar.mem_of_mem_significant {tokens : List Token} {t : Token}
    (h : t ∈ Grammar.significant tokens) : t ∈ tokens ∨ t = Cursor.endMark := by
  unfold Grammar.significant at h
  dsimp only at h
  split at h
  · exact .inl (List.mem_filter.mp h).1
  · rcases List.mem_append.mp h with h | h
    · exact .inl (List.mem_filter.mp h).1
    · exact .inr (List.mem_singleton.mp h)

/-! ## Whole programs -/

namespace Program

theorem mem_atoms {p : Program} {a : Atom} :
    a ∈ p.atoms ↔
      a ∈ p.schemes ∨ a ∈ p.facts ∨ (∃ r ∈ p.rules, a = r.head ∨ a ∈ r.body) ∨ a ∈ p.queries := by
  simp [atoms]

theorem lexemes_subset_of_mem_atoms {p : Program} {a : Atom} (h : a ∈ p.atoms) :
    a.lexemes ⊆ p.lexemes := by
  intro x hx
  rcases mem_atoms.mp h with ha | ha | ⟨r, hr, ha⟩ | ha
  · have hmem : x ∈ p.schemes.flatMap (·.lexemes) := List.mem_flatMap_of_mem ha hx
    simp [lexemes, hmem]
  · have hmem : x ∈ p.facts.flatMap (·.factLexemes) :=
      List.mem_flatMap_of_mem ha (List.mem_append_left _ hx)
    simp [lexemes, hmem]
  · have hrule : x ∈ r.lexemes := by
      rcases ha with rfl | ha
      · simp [Rule.lexemes, hx]
      · have hmem := Lexeme.subset_commaSeparated (List.mem_map_of_mem ha) hx
        simp [Rule.lexemes, hmem]
    have hmem : x ∈ p.rules.flatMap (·.lexemes) := List.mem_flatMap_of_mem hr hrule
    simp [lexemes, hmem]
  · have hmem : x ∈ p.queries.flatMap (·.queryLexemes) :=
      List.mem_flatMap_of_mem ha (List.mem_append_left _ hx)
    simp [lexemes, hmem]

/-- The lexemes of a program, line by line. -/
def lineLexemes (p : Program) : List (List Lexeme) :=
  [[mark .schemes, mark .colon]] ++ p.schemes.map (·.lexemes) ++
    [[mark .facts, mark .colon]] ++ p.facts.map (·.factLexemes) ++
    [[mark .rules, mark .colon]] ++ p.rules.map (·.lexemes) ++
    [[mark .queries, mark .colon]] ++ p.queries.map (·.queryLexemes)

theorem flatten_lineLexemes (p : Program) : p.lineLexemes.flatten ++ [mark .eof] = p.lexemes := by
  simp [lineLexemes, lexemes, List.flatMap]

theorem WellFormed.lexesApart_lines {p : Program} (h : p.WellFormed) :
    List.Forall₂ LexesApart p.sourceLines p.lineLexemes := by
  have hschemesTitle : LexesApart "Schemes:" [mark .schemes, mark .colon] :=
    lexesApart_title 'S' "chemes".toList (by decide) (by decide) rfl
  have hfactsTitle : LexesApart "Facts:" [mark .facts, mark .colon] :=
    lexesApart_title 'F' "acts".toList (by decide) (by decide) rfl
  have hrulesTitle : LexesApart "Rules:" [mark .rules, mark .colon] :=
    lexesApart_title 'R' "ules".toList (by decide) (by decide) rfl
  have hqueriesTitle : LexesApart "Queries:" [mark .queries, mark .colon] :=
    lexesApart_title 'Q' "ueries".toList (by decide) (by decide) rfl
  have hschemes := forall₂_lexesApart fun a (ha : a ∈ p.schemes) =>
    (lexes_atom (h.grammatical.schemes a ha) (h.spelled a (mem_atoms.mpr (.inl ha)))).apart
  have hfacts := forall₂_lexesApart fun a (ha : a ∈ p.facts) =>
    (lexes_fact (h.grammatical.facts a ha) (h.spelled a (mem_atoms.mpr (.inr (.inl ha))))).apart
  have hrules := forall₂_lexesApart fun r (hr : r ∈ p.rules) =>
    (lexes_rule (h.grammatical.rules r hr) fun a ha =>
      h.spelled a (mem_atoms.mpr (.inr (.inr (.inl ⟨r, hr, ha⟩))))).apart
  have hqueries := forall₂_lexesApart fun a (ha : a ∈ p.queries) =>
    (lexes_query (h.grammatical.queries a ha)
      (h.spelled a (mem_atoms.mpr (.inr (.inr (.inr ha)))))).apart
  have hschemesLines := List.rel_append (.cons hschemesTitle .nil) hschemes
  have hfactsLines :=
    List.rel_append (List.rel_append hschemesLines (.cons hfactsTitle .nil)) hfacts
  have hrulesLines := List.rel_append (List.rel_append hfactsLines (.cons hrulesTitle .nil)) hrules
  exact List.rel_append (List.rel_append hrulesLines (.cons hqueriesTitle .nil)) hqueries

/-- The text of a program has the lexemes of the program, whether or not its
last line ends. -/
theorem WellFormed.map_lexeme_lex {p : Program} (h : p.WellFormed) :
    (lex p.source).map (·.lexeme) = p.lexemes ∧
      (lex (p.source ++ ("\n" : Bytes))).map (·.lexeme) = p.lexemes := by
  have hlines := lexesApart_join LexesApart.newline h.lexesApart_lines
  have hflatten : List.intercalate [] p.lineLexemes ++ [mark .eof] = p.lexemes := by
    rw [← flatten_lineLexemes]
    congr 1
    obtain hnil | ⟨init, last, hlast⟩ := p.lineLexemes.eq_nil_or_concat
    · rw [hnil]
      rfl
    · rw [hlast, List.concat_eq_append, List.intercalate_concat]
      simp [List.flatMap]
  constructor
  · exact hlines.map_lexeme_lex.trans hflatten
  · have hended := hlines.newline.apart.map_lexeme_lex
    rw [List.append_nil] at hended
    exact hended.trans hflatten

/-! ## Reading back -/

theorem significant_eq_self {source : Bytes} {p : Program}
    (h : (lex source).map (·.lexeme) = p.lexemes) :
    Grammar.significant (lex source) = lex source := by
  rw [Grammar.significant_lex_eq_filter, List.filter_eq_self]
  intro t ht
  have hmem : t.lexeme ∈ p.lexemes := h ▸ List.mem_map_of_mem ht
  have hkind : t.kind.inPrograms = true := p.inPrograms _ hmem
  rw [decide_eq_true_iff]
  intro hcomment
  rw [hcomment] at hkind
  cases hkind

theorem parse_eq_ok_of_lexemes {source : Bytes} {p : Program} (hp : p.Grammatical)
    (h : (lex source).map (·.lexeme) = p.lexemes) : parse source = .ok p := by
  apply ofTokens_eq_ok_iff.mpr
  refine ⟨lex source, ?_, readOff_iff.mpr ⟨hp, h.symm⟩⟩
  rw [significant_eq_self h]

/-- Names and terms of a program that is read are texts of tokens. -/
theorem wellFormed_of_parse {source : Bytes} {p : Program} (h : parse source = .ok p) :
    p.WellFormed := by
  obtain ⟨front, hfront, hread⟩ := ofTokens_eq_ok_iff.mp h
  -- A lexeme that carries a text is the lexeme of a token that was found in the source.
  have htext : ∀ (k : TokenKind) (v : Bytes), k.carriesText = true → ⟨k, v⟩ ∈ p.lexemes →
      (k = .identifier → IsName v) ∧ (k = .constant → IsQuoted v) := by
    intro k v hk hmem
    rw [hread.lexemes] at hmem
    obtain ⟨t, ht, hlexeme⟩ := List.mem_map.mp hmem
    obtain ⟨rfl, rfl⟩ := Token.of_lexeme_eq hk hlexeme
    rcases Grammar.mem_of_mem_significant (hfront.subset ht) with hmem | rfl
    · exact Lexer.text_of_mem_scan hmem
    · cases hk
  refine ⟨hread.grammatical, ?_⟩
  intro a ha
  have hlexemes := lexemes_subset_of_mem_atoms ha
  constructor
  · exact (htext .identifier a.name rfl (hlexemes (by simp [Atom.lexemes]))).1 rfl
  · intro u hu
    have hterm : u.lexeme ∈ p.lexemes := hlexemes (Atom.lexeme_mem_lexemes hu)
    obtain ⟨kind, value⟩ := u
    constructor
    · rintro rfl
      exact (htext .identifier value rfl hterm).1 rfl
    · rintro rfl
      exact (htext .constant value rfl hterm).2 rfl

/-- Writing and reading are inverse: a well-formed program is read back from its
text, and every program that is read from any text is well formed. -/
theorem parse_source_inverse :
    (∀ p : Program, p.WellFormed →
      parse p.source = .ok p ∧ parse (p.source ++ ("\n" : Bytes)) = .ok p) ∧
    ∀ (source : Bytes) (p : Program), parse source = .ok p → p.WellFormed := by
  constructor
  · intro p hp
    obtain ⟨hsource, hended⟩ := hp.map_lexeme_lex
    exact ⟨parse_eq_ok_of_lexemes hp.grammatical hsource,
      parse_eq_ok_of_lexemes hp.grammatical hended⟩
  · exact fun source p h => wellFormed_of_parse h

/-- A constant may hold what would be marks, comments, titles and lines. -/
theorem parse_source_inverse_quoted :
    let edge (t u : Term) : Atom := ⟨"edge", [t, u]⟩
    let x : Term := .identifier "X"
    let y : Term := .identifier "Y"
    let c : Term := .constant "'a:-#|\nFacts:'"
    let p : Program := ⟨[edge x y], [edge c c], [⟨edge y x, [edge x y, edge y c]⟩], [edge c x]⟩
    let source : Bytes := "Schemes:e(x)Facts:Rules:Queries:e(x)?"
    let q : Program := ⟨[⟨"e", [.identifier "x"]⟩], [], [], [⟨"e", [.identifier "x"]⟩]⟩
    (p.WellFormed ∧ parse p.source = .ok p) ∧ parse source = .ok q ∧ q.WellFormed := by
  intro edge x y c p source q
  have hword : ∀ d ∈ "dge".toList, Text.isLetter d = true ∨ Text.isDigit d = true := by
    intro d hd
    have hall : "dge".toList.all Lexer.isWordChar = true := by decide
    simpa [Lexer.isWordChar] using List.all_eq_true.mp hall d hd
  have hedge : IsName "edge" := ⟨'e', "dge".toList, rfl, by decide, hword, by decide⟩
  have hx : x.WellSpelled :=
    .of_isName ⟨'X', [], rfl, by decide, by simp, by decide⟩
  have hy : y.WellSpelled :=
    .of_isName ⟨'Y', [], rfl, by decide, by simp, by decide⟩
  have hc : c.WellSpelled := .of_isQuoted ⟨"a:-#|\nFacts:".toList, rfl, by decide⟩
  have hspelled : ∀ t u, t.WellSpelled → u.WellSpelled → (edge t u).WellSpelled := by
    intro t u ht hu
    exact ⟨hedge, by simp [edge, ht, hu]⟩
  have hover : ∀ (kinds : List TokenKind) (t u : Term), t.Among kinds → u.Among kinds →
      (edge t u).Over kinds := by
    intro kinds t u ht hu
    exact ⟨by simp [edge], by simp [edge, ht, hu]⟩
  have hvariable : ∀ (kinds : List TokenKind), .identifier ∈ kinds →
      x.Among kinds ∧ y.Among kinds :=
    fun kinds h => ⟨.inl ⟨rfl, h⟩, .inl ⟨rfl, h⟩⟩
  have hconstant : ∀ (kinds : List TokenKind), .constant ∈ kinds → c.Among kinds :=
    fun kinds h => .inr ⟨rfl, h⟩
  have hrule : Rule.Grammatical ⟨edge y x, [edge x y, edge y c]⟩ :=
    ⟨by simp [hover, hvariable], by simp, by simp [hover, hvariable, hconstant]⟩
  have hp : p.WellFormed :=
    ⟨⟨by simp [p], by simp [p, hover, hvariable], by simp [p, hover, hconstant],
      by simp [p, hrule], by simp [p], by simp [p, hover, hvariable, hconstant]⟩,
      by simp [p, atoms, hspelled, hx, hy, hc]⟩
  have hq : parse source = .ok q := by decide +kernel
  exact ⟨⟨hp, (parse_source_inverse.1 p hp).1⟩, hq, parse_source_inverse.2 source q hq⟩

end Program

end LeastModel
