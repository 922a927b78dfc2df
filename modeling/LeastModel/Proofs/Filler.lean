import LeastModel.Proofs.LongestMatch
import LeastModel.Proofs.RuneBoundaries
import LeastModel.Proofs.SourceText

/-!
# White space and comments between tokens

Between two tokens of a text there may be white space and comments
(`Lexer.Filler`). A place between two characters that lies inside no token is
found again when the text is read (`Lexer.AtBoundary`), and what is put there is
passed over, or goes on a line comment that ends there. So reading finds the same
lexemes, comments aside (`Lexer.AtBoundary.significant_insert`).

## Main statement

`Program.parse_insertAt`: a program stays the same when white space or a comment
is put into its text outside of all tokens.
-/

namespace LeastModel

namespace Text

theorem isDigit_eq_false_of_isBlank {c : Char} (h : isBlank c = true) : isDigit c = false := by
  have hnone : ∀ n ∈ blankRanges.flatMap fun range =>
      List.range' range.1 (range.2 + 1 - range.1), digitRanges.contains n = false := by
    decide +kernel
  exact hnone _ (Ranges.mem_of_contains h)

theorem isLetter_eq_false_of_isBlank {c : Char} (h : isBlank c = true) : isLetter c = false := by
  by_contra hletter
  rw [isBlank_eq_false_of_isLetter (Bool.not_eq_false _ ▸ hletter)] at h
  cases h

end Text

namespace Lexer

/-- What may be put between tokens: white space, a block comment within a line,
or a line comment with the end of its line. -/
inductive Filler : List Char → Prop
  | blanks {cs : List Char} (h : ∀ c ∈ cs, Text.isBlank c = true) : Filler cs
  | blockComment {body : List Char} (hclosing : ¬closing <:+: body) (hline : '\n' ∉ body) :
      Filler ('#' :: '|' :: body ++ closing)
  | lineComment {body : List Char} (hopening : body.head? ≠ some '|') (hline : '\n' ∉ body) :
      Filler ('#' :: body ++ ['\n'])

/-! ## Lexemes without comments -/

/-- The lexemes of a text that count, that is, without its comments. -/
def significant (cs : List Char) : List Lexeme := (lexemes cs).filter (·.kind ≠ .comment)

theorem significant_of_isBlank {c : Char} (h : Text.isBlank c = true) (cs : List Char) :
    significant (c :: cs) = significant cs := by
  rw [significant, lexemes_of_isBlank h, significant]

theorem significant_blanks {gap : List Char} (h : ∀ c ∈ gap, Text.isBlank c = true)
    (cs : List Char) : significant (gap ++ cs) = significant cs := by
  induction gap with
  | nil => rfl
  | cons c gap ih =>
      obtain ⟨hc, hgap⟩ := List.forall_mem_cons.mp h
      rw [List.cons_append, significant_of_isBlank hc, ih hgap]

theorem significant_cons {k : TokenKind} {c : Char} {t rest : List Char}
    (hc : Text.isBlank c = false) (h : HasForm k (c :: t)) (hends : EndsBefore rest k (c :: t)) :
    significant (c :: t ++ rest) =
      [Lexeme.of k (Utf8.encode (c :: t))].filter (·.kind ≠ .comment) ++ significant rest := by
  rw [significant, List.cons_append, lexemes_cons hc, lexeme_of_hasForm h hends]
  dsimp only
  rw [List.take_left, List.drop_left, ← List.singleton_append, List.filter_append, significant]

/-- A line comment takes everything up to the end of the line. -/
theorem significant_lineComment {body rest : List Char} (hbody : body.head? ≠ some '|')
    (hline : '\n' ∉ body) (hrest : rest.head? ≠ some '|') :
    significant ('#' :: body ++ rest) = significant (rest.dropWhile (· != '\n')) := by
  have hhead : (body ++ rest).head? ≠ some '|' := by
    cases body with
    | nil => exact hrest
    | cons d body => exact hbody
  have hread : lexeme '#' (body ++ rest) =
      (.comment, (body ++ rest.takeWhile (· != '\n')).length) := by
    change comment (body ++ rest) = _
    rw [comment_of_head?_ne hhead,
      List.takeWhile_append_of_pos (forall_bne_of_notMem hline)]
  have hdrop : (body ++ rest).drop (body ++ rest.takeWhile (· != '\n')).length =
      rest.dropWhile (· != '\n') := by
    have happend : body ++ rest =
        body ++ rest.takeWhile (· != '\n') ++ rest.dropWhile (· != '\n') := by
      rw [List.append_assoc, List.takeWhile_append_dropWhile]
    rw [happend, List.drop_left]
  rw [significant, List.cons_append, lexemes_cons (by decide), hread]
  dsimp only
  rw [hdrop, List.filter_cons_of_neg (by simp [Lexeme.of]), significant]

/-! ## Filler -/

namespace Filler

variable {filler : List Char}

theorem head?_cases (h : Filler filler) : ∀ d ∈ filler.head?, Text.isBlank d = true ∨ d = '#' := by
  cases h with
  | blanks hblank => exact fun d hd => .inl (hblank d (List.mem_of_mem_head? hd))
  | blockComment => exact fun d hd => .inr (Option.some.inj hd).symm
  | lineComment => exact fun d hd => .inr (Option.some.inj hd).symm

theorem infix_concat_bar {body : List Char} (h : ¬closing <:+: body) :
    ¬closing <:+: body ++ ['|'] := by
  rw [List.infix_concat_iff, not_or]
  refine ⟨fun hsuffix => ?_, h⟩
  obtain hnil | ⟨t, heq, -⟩ := List.suffix_concat_iff.mp hsuffix
  · cases hnil
  · have hlast := congrArg List.getLast? heq
    simp [closing] at hlast

/-- Filler at the beginning of a text is passed over. -/
theorem significant_append (h : Filler filler) (back : List Char) :
    significant (filler ++ back) = significant back := by
  cases h with
  | blanks hblank => exact significant_blanks hblank back
  | @blockComment body hclosing hline =>
      have hblock : IsBlockComment ('#' :: '|' :: body ++ closing) :=
        ⟨body, rfl, infix_concat_bar hclosing⟩
      have hends : EndsBefore back .comment ('#' :: ('|' :: body ++ closing)) :=
        fun hcomment => absurd hcomment (not_isLineComment_of_isBlockComment hblock)
      exact significant_cons (by decide) (k := .comment) (.inr hblock) hends
  | @lineComment body hopening hline =>
      have hskip : significant (('#' :: body) ++ '\n' :: back) = _ :=
        significant_lineComment hopening hline (by simp)
      rw [List.append_assoc, List.singleton_append, hskip]
      exact significant_of_isBlank (by decide) back

/-- Filler in a line comment is part of it, but for what comes behind a line that
it ends. -/
theorem significant_dropWhile (h : Filler filler) {back : List Char}
    (hback : ∀ d ∈ back.head?, d = '\n') :
    significant ((filler ++ back).dropWhile (· != '\n')) = significant back := by
  have hstop : back.dropWhile (· != '\n') = back := by
    cases back with
    | nil => rfl
    | cons d back => rw [hback d rfl]; rfl
  cases h with
  | blanks hblank =>
      induction filler with
      | nil => rw [List.nil_append, hstop]
      | cons c filler ih =>
          obtain ⟨hc, hfiller⟩ := List.forall_mem_cons.mp hblank
          by_cases hline : c = '\n'
          · rw [hline, List.cons_append, List.dropWhile_cons_of_neg (by simp), ← List.cons_append,
              ← hline, significant_blanks hblank]
          · rw [List.cons_append, List.dropWhile_cons_of_pos (by simpa using hline), ih hfiller]
  | @blockComment body hclosing hline =>
      have hpass : ∀ d ∈ '#' :: '|' :: body ++ closing, (d != '\n') = true :=
        forall_bne_of_notMem (by simp [closing, hline])
      rw [List.dropWhile_append_of_pos hpass, hstop]
  | @lineComment body hopening hline =>
      have hpass : ∀ d ∈ '#' :: body, (d != '\n') = true :=
        forall_bne_of_notMem (by simp [hline])
      rw [List.append_assoc, List.dropWhile_append_of_pos hpass]
      exact significant_of_isBlank (by decide) back

end Filler

/-! ## Places between tokens -/

/-- The place between `front` and `back` lies inside no token of the text that
they make up. -/
inductive AtBoundary : (front back : List Char) → Prop
  | start (back : List Char) : AtBoundary [] back
  | blank {c : Char} {front back : List Char} (hc : Text.isBlank c = true)
      (h : AtBoundary front back) : AtBoundary (c :: front) back
  | token {k : TokenKind} {c : Char} {t front back : List Char} (hc : Text.isBlank c = false)
      (hform : HasForm k (c :: t)) (hends : EndsBefore (front ++ back) k (c :: t))
      (h : AtBoundary front back) : AtBoundary (c :: t ++ front) back

/-- Only the next character decides where a token may end. -/
theorem EndsBefore.cons {k : TokenKind} {text : List Char} {d : Char} {rest : List Char}
    (h : EndsBefore (d :: rest) k text) (rest' : List Char) : EndsBefore (d :: rest') k text := by
  cases k with
  | unterminatedConstant | unterminatedComment => cases h
  | _ => exact h

theorem ne_of_isBlank_or {d e : Char} (hd : Text.isBlank d = true ∨ d = '#')
    (he : Text.isBlank e = false) (hne : e ≠ '#') : d ≠ e := by
  rintro rfl
  rcases hd with hblank | heq
  · rw [he] at hblank
    cases hblank
  · exact hne heq

/-- A token may end before filler, unless filler goes on the token. -/
theorem endsBefore_filler {k : TokenKind} {text : List Char} {d : Char}
    (hd : Text.isBlank d = true ∨ d = '#') (hkind : k.isError = false)
    (htext : k = .comment → ¬IsLineComment text) (rest : List Char) :
    EndsBefore (d :: rest) k text := by
  have hword : Text.isLetter d = false ∧ Text.isDigit d = false := by
    rcases hd with hblank | rfl
    · exact ⟨Text.isLetter_eq_false_of_isBlank hblank, Text.isDigit_eq_false_of_isBlank hblank⟩
    · decide
  have hdash : d ≠ '-' := ne_of_isBlank_or hd (by decide) (by decide)
  cases k with
  | undefined | unterminatedConstant | unterminatedComment => cases hkind
  | comment => exact fun hline => absurd hline (htext rfl)
  | colon => simpa [EndsBefore] using hdash
  | schemes | facts | rules | queries | identifier => simpa [EndsBefore] using hword
  | _ => trivial

/-- Filler right behind a token is passed over, or is part of a line comment. -/
theorem Filler.significant_token {filler : List Char} (h : Filler filler) {k : TokenKind} {c : Char}
    {t back : List Char} (hc : Text.isBlank c = false) (hform : HasForm k (c :: t))
    (hends : EndsBefore back k (c :: t)) (hkind : k.isError = false) :
    significant (c :: t ++ (filler ++ back)) = significant (c :: t ++ back) := by
  cases filler with
  | nil => rfl
  | cons d filler =>
      have hd := h.head?_cases d rfl
      by_cases hline : k = .comment ∧ IsLineComment (c :: t)
      · obtain ⟨rfl, hcomment⟩ := hline
        have hback := hends hcomment
        obtain ⟨body, heq, hbody, hlines⟩ := hcomment
        cases heq
        have hbar : (d :: filler ++ back).head? ≠ some '|' := fun heq =>
          ne_of_isBlank_or hd (by decide) (by decide) (Option.some.inj heq)
        rw [significant_lineComment hbody hlines hbar, h.significant_dropWhile hback,
          significant_cons hc hform hends]
        rfl
      · have hends' : EndsBefore (d :: filler ++ back) k (c :: t) :=
          endsBefore_filler hd hkind (fun hk hcomment => hline ⟨hk, hcomment⟩) _
        rw [significant_cons hc hform hends', h.significant_append, significant_cons hc hform hends]

/-- Filler that is put outside of all tokens does not change the lexemes that count. -/
theorem AtBoundary.significant_insert {front back filler : List Char} (h : AtBoundary front back)
    (hfiller : Filler filler)
    (hclosed : ∀ x ∈ significant (front ++ back), x.kind.isError = false) :
    significant (front ++ (filler ++ back)) = significant (front ++ back) := by
  induction h with
  | start back => exact hfiller.significant_append back
  | blank hc h ih =>
      rw [List.cons_append, significant_of_isBlank hc] at hclosed ⊢
      rw [List.cons_append, significant_of_isBlank hc, ih hclosed]
  | @token k c t front back hc hform hends h ih =>
      rw [List.append_assoc, significant_cons hc hform hends] at hclosed
      obtain ⟨hfirst, hothers⟩ := List.forall_mem_append.mp hclosed
      rw [List.append_assoc, List.append_assoc]
      cases front with
      | nil =>
          apply hfiller.significant_token hc hform hends
          by_cases hk : k = .comment
          · rw [hk]
            rfl
          · exact hfirst (Lexeme.of k (Utf8.encode (c :: t))) (by simp [Lexeme.of, hk])
      | cons d front =>
          have hends' : EndsBefore (d :: front ++ (filler ++ back)) k (c :: t) := hends.cons _
          rw [significant_cons hc hform hends, significant_cons hc hform hends', ih hothers]

/-! ## Places inside of tokens -/

/-- The scan of a text that begins with a token. -/
theorem scan_hasForm {k : TokenKind} {c : Char} {t rest : List Char}
    (hc : Text.isBlank c = false) (hform : HasForm k (c :: t))
    (hends : EndsBefore rest k (c :: t)) (before : List Char) :
    ∃ u : Token, u.StandsBehind before ∧ Utf8.decode u.value = c :: t ∧
      scan 0 (.after before) (c :: (t ++ rest)) =
        u :: scan 0 (.after (before ++ c :: t)) rest := by
  have hblank : ∀ d ∈ ([] : List Char), Text.isBlank d = true := nofun
  have hread := lexeme_of_hasForm hform hends
  have hscan := scan_piece hblank hc before (t ++ rest)
  rw [text_pieceAt, hread, List.take_left, List.drop_left, List.nil_append] at hscan
  have hplace := (pieceAt_liesBehind hblank hc before (t ++ rest)).place
  refine ⟨_, ?_, ?_, hscan⟩
  · simpa [pieceAt] using hplace
  · rw [pieceAt, Utf8.decode_encode, hread, List.take_left]

/-- A place that no token surrounds is one between tokens. -/
theorem atBoundary_of_not_surrounds {before front back : List Char}
    (h : ∀ t ∈ scan 0 (.after before) (front ++ back),
      ¬t.Surrounds (before ++ (front ++ back)) (before.length + front.length)) :
    AtBoundary front back := by
  induction hlength : front.length using Nat.strongRecOn generalizing before front with
  | _ length ih =>
      cases front with
      | nil => exact .start back
      | cons c front =>
          by_cases hc : Text.isBlank c = true
          · have hblank : ∀ d ∈ [c], Text.isBlank d = true := by simpa using hc
            have hscan := scan_blanks hblank before (front ++ back)
            have hbehind : ∀ t ∈ scan 0 (.after (before ++ [c])) (front ++ back),
                ¬t.Surrounds (before ++ [c] ++ (front ++ back))
                  ((before ++ [c]).length + front.length) := by
              intro t ht
              rw [← hscan] at ht
              simpa [Nat.add_assoc, Nat.add_comm 1] using h t ht
            exact .blank hc (ih front.length (by simp [← hlength]) hbehind rfl)
          · rw [Bool.not_eq_true] at hc
            obtain ⟨k, t, rest, happend, -, hform, hends⟩ := exists_hasForm hc (front ++ back)
            obtain ⟨u, hplace, hvalue, hscan⟩ := scan_hasForm hc hform hends before
            rw [← happend] at hscan
            have hle : t.length ≤ front.length := by
              have hoff := h u (hscan ▸ List.mem_cons_self)
              rw [Token.surrounds_iff hplace (by simp), hvalue] at hoff
              simp only [List.length_cons] at hoff
              omega
            -- The token ends in front of the place, so that the place is behind it.
            obtain ⟨behind, rfl⟩ := List.prefix_of_prefix_length_le
              (happend ▸ List.prefix_append t rest) (List.prefix_append front back) hle
            rw [List.append_assoc] at happend
            obtain rfl := List.append_cancel_left happend
            have hbehind : ∀ u ∈ scan 0 (.after (before ++ c :: t)) (behind ++ back),
                ¬u.Surrounds (before ++ c :: t ++ (behind ++ back))
                  ((before ++ c :: t).length + behind.length) := by
              intro u hu
              have hoff := h u (hscan ▸ List.mem_cons_of_mem _ hu)
              simpa [Nat.add_assoc, Nat.add_comm, Nat.add_left_comm] using hoff
            have hshorter : behind.length < length := by
              rw [← hlength, List.length_cons, List.length_append]
              omega
            exact .token hc hform hends (ih behind.length hshorter hbehind rfl)

end Lexer

namespace Program

/-- A text is read as the program whose lexemes are those of the text that count. -/
theorem parse_eq_ok_iff {source : Bytes} {p : Program} :
    parse source = .ok p ↔
      p.Grammatical ∧ p.lexemes = Lexer.significant (Utf8.decode source) := by
  have hsignificant : (Grammar.significant (lex source)).map (·.lexeme) =
      Lexer.significant (Utf8.decode source) := by
    rw [Grammar.significant_lex_eq_filter, Lexer.significant, ← map_lexeme_lex, List.filter_map]
    rfl
  rw [← hsignificant, ← readOff_iff]
  constructor
  · intro h
    obtain ⟨front, hfront, hread⟩ := ofTokens_eq_ok_iff.mp h
    exact hread.eq_significant_lex hfront ▸ hread
  · exact fun hread => ofTokens_eq_ok_iff.mpr ⟨_, List.prefix_rfl, hread⟩

/-- A program stays the same when white space or a comment is put into its text
between two characters, unless a token surrounds this place. -/
theorem parse_insertAt {source : Bytes} {p : Program} (h : parse source = .ok p) {i : Nat}
    (hi : i ≤ Utf8.length source)
    (houtside : ∀ t ∈ lex source, ¬t.Surrounds (Utf8.decode source) i) {filler : List Char}
    (hfiller : Lexer.Filler filler) : parse (Utf8.insertAt source i filler) = .ok p := by
  obtain ⟨hgrammatical, hlexemes⟩ := parse_eq_ok_iff.mp h
  have hsplit := List.take_append_drop i (Utf8.decode source)
  have hlength : ((Utf8.decode source).take i).length = i := by
    rw [List.length_take, Utf8.decode, List.length_map]
    exact Nat.min_eq_left hi
  have hboundary :
      Lexer.AtBoundary ((Utf8.decode source).take i) ((Utf8.decode source).drop i) := by
    refine @Lexer.atBoundary_of_not_surrounds [] _ _ ?_
    rw [hsplit, hlength, List.nil_append, List.length_nil, Nat.zero_add]
    exact houtside
  have hclosed : ∀ x ∈ Lexer.significant
      ((Utf8.decode source).take i ++ (Utf8.decode source).drop i), x.kind.isError = false := by
    intro x hx
    rw [hsplit, ← hlexemes] at hx
    exact TokenKind.isError_eq_false (p.inPrograms x hx)
  have hinsert := hboundary.significant_insert hfiller hclosed
  rw [hsplit, ← List.append_assoc, ← Utf8.decode_insertAt] at hinsert
  exact parse_eq_ok_iff.mpr ⟨hgrammatical, hlexemes.trans hinsert.symm⟩

/-- A block comment behind a number sign that ends its line goes on the line
comment that begins there. -/
theorem parse_insertAt_numberSign :
    let source : Bytes := "Schemes:e(x)Facts:Rules:Queries:e(x)?#\n"
    let p : Program := ⟨[⟨"e", [.identifier "x"]⟩], [], [], [⟨"e", [.identifier "x"]⟩]⟩
    let filler : List Char := "#|'|#".toList
    parse source = .ok p ∧ 38 ≤ Utf8.length source ∧
      (∀ t ∈ lex source, ¬t.Surrounds (Utf8.decode source) 38) ∧ Lexer.Filler filler ∧
      parse (Utf8.insertAt source 38 filler) = .ok p := by
  intro source p filler
  have hparse : parse source = .ok p := by decide +kernel
  have hi : 38 ≤ Utf8.length source := by decide +kernel
  have houtside : ∀ t ∈ lex source, ¬t.Surrounds (Utf8.decode source) 38 := by decide +kernel
  have hfiller : Lexer.Filler filler :=
    .blockComment (show ¬Lexer.closing <:+: ['\x27'] by decide) (by decide)
  exact ⟨hparse, hi, houtside, hfiller, parse_insertAt hparse hi houtside hfiller⟩

end Program

end LeastModel
