import LeastModel.Proofs.Lexing

/-!
# The forms of tokens

Every kind of token has a form of its own (`Lexer.HasForm`), and some tokens may
not stop anywhere (`Lexer.EndsBefore`): a word not before a letter, a colon not
before a dash, a line comment only where the line ends. The form of a token and
what follows it decide that it is read (`Lexer.lexeme_eq_iff`), and nothing else
that the text begins with, in whatever form, is longer
(`Lexer.length_le_of_hasForm`).
-/

namespace LeastModel

namespace Lexer

/-! ## Forms -/

/-- A letter, then letters and digits. -/
def IsWord (text : List Char) : Prop :=
  ∃ c cs, text = c :: cs ∧ Text.isLetter c = true ∧
    ∀ d ∈ cs, Text.isLetter d = true ∨ Text.isDigit d = true

/-- The mark that closes a block comment. -/
def closing : List Char := ['|', '#']

/-- A number sign with no bar behind it, then the rest of a line. -/
def IsLineComment (text : List Char) : Prop :=
  ∃ body, text = '#' :: body ∧ body.head? ≠ some '|' ∧ '\n' ∉ body

/-- A number sign and a bar, then everything up to the first closing mark. The
bar that opens the comment is not part of such a mark. -/
def IsBlockComment (text : List Char) : Prop :=
  ∃ body, text = '#' :: '|' :: body ++ closing ∧ ¬closing <:+: body ++ ['|']

/-- The characters that begin a token and are no letters. -/
def marks : List Char := [':', '#', '\x27', ',', '.', '?', '(', ')', '*', '+']

/-- What a text of some kind looks like, whatever follows it. -/
def HasForm : TokenKind → List Char → Prop
  | .comma, text => text = [',']
  | .period, text => text = ['.']
  | .questionMark, text => text = ['?']
  | .leftParen, text => text = ['(']
  | .rightParen, text => text = [')']
  | .multiply, text => text = ['*']
  | .add, text => text = ['+']
  | .colon, text => text = [':']
  | .colonDash, text => text = [':', '-']
  | .schemes, text => IsWord text ∧ text = "Schemes".toList
  | .facts, text => IsWord text ∧ text = "Facts".toList
  | .rules, text => IsWord text ∧ text = "Rules".toList
  | .queries, text => IsWord text ∧ text = "Queries".toList
  | .identifier, text => IsWord text ∧ text ∉ keywords
  | .constant, text => ∃ body, text = '\x27' :: body ++ ['\x27'] ∧ '\x27' ∉ body
  | .unterminatedConstant, text => ∃ body, text = '\x27' :: body ∧ '\x27' ∉ body
  | .comment, text => IsLineComment text ∨ IsBlockComment text
  | .unterminatedComment, text => ∃ body, text = '#' :: '|' :: body ∧ ¬closing <:+: body
  | .undefined, text =>
    ∃ c, text = [c] ∧ Text.isBlank c = false ∧ Text.isLetter c = false ∧ c ∉ marks
  | .eof, _ | .unlisted _, _ => False

/-- What may follow a text of some kind. -/
def EndsBefore (rest : List Char) : TokenKind → List Char → Prop
  | .schemes, _ | .facts, _ | .rules, _ | .queries, _ | .identifier, _ =>
    ∀ d ∈ rest.head?, Text.isLetter d = false ∧ Text.isDigit d = false
  | .colon, _ => rest.head? ≠ some '-'
  | .comment, text => IsLineComment text → ∀ d ∈ rest.head?, d = '\n'
  | .unterminatedConstant, _ | .unterminatedComment, _ => rest = []
  | _, _ => True

/-! ## Where constants and comments end -/

theorem constantEnd?_eq_none_iff {cs : List Char} : constantEnd? cs = none ↔ '\x27' ∉ cs := by
  induction cs with
  | nil => simp [constantEnd?]
  | cons c cs ih =>
      rw [constantEnd?, List.mem_cons, not_or, ← ih]
      by_cases hc : c = '\x27'
      · simp [hc]
      · simp [hc, Ne.symm hc]

theorem constantEnd?_eq_some_iff {cs : List Char} {n : Nat} :
    constantEnd? cs = some n ↔
      ∃ body rest, cs = body ++ '\x27' :: rest ∧ '\x27' ∉ body ∧ n = body.length + 1 := by
  constructor
  · intro h
    have hmem : '\x27' ∈ cs := by
      by_contra hmem
      rw [constantEnd?_eq_none_iff.mpr hmem] at h
      cases h
    obtain ⟨body, rest, rfl, hbody⟩ := List.eq_append_cons_of_mem hmem
    rw [constantEnd?_append hbody] at h
    exact ⟨body, rest, rfl, hbody, (Option.some.inj h).symm⟩
  · rintro ⟨body, rest, rfl, hbody, rfl⟩
    exact constantEnd?_append hbody rest

theorem closing_prefix_cons_iff (c : Char) (cs : List Char) :
    closing <+: c :: cs ↔ c = '|' ∧ cs.head? = some '#' := by
  rw [closing, List.cons_prefix_cons, eq_comm]
  cases cs with
  | nil => simp
  | cons d cs => simp [List.cons_prefix_cons, eq_comm]

theorem commentEnd?_eq_none_iff {cs : List Char} : commentEnd? cs = none ↔ ¬closing <:+: cs := by
  induction cs with
  | nil => simp [commentEnd?, closing]
  | cons c cs ih =>
      rw [commentEnd?, List.infix_cons_iff, closing_prefix_cons_iff, not_or, ← ih]
      by_cases hc : c = '|' ∧ cs.head? = some '#'
      · simp [hc]
      · simp [hc]

theorem commentEnd?_append {body : List Char} (h : ¬closing <:+: body ++ ['|'])
    (rest : List Char) : commentEnd? (body ++ closing ++ rest) = some (body.length + 2) := by
  induction body with
  | nil => rfl
  | cons c body ih =>
      rw [List.cons_append, List.infix_cons_iff, closing_prefix_cons_iff, not_or] at h
      have hhead : (body ++ closing ++ rest).head? = (body ++ ['|']).head? := by
        cases body <;> rfl
      rw [List.cons_append, List.cons_append, commentEnd?, hhead, if_neg h.1, ih h.2]
      rfl

theorem exists_of_commentEnd? {cs : List Char} {n : Nat} (h : commentEnd? cs = some n) :
    ∃ body rest, cs = body ++ closing ++ rest ∧ ¬closing <:+: body ++ ['|'] ∧
      n = body.length + 2 := by
  induction cs generalizing n with
  | nil => cases h
  | cons c cs ih =>
      rw [commentEnd?] at h
      split at h
      · rename_i hc
        obtain ⟨rfl, hhead⟩ := hc
        obtain ⟨rest, rfl⟩ := List.head?_eq_some_iff.mp hhead
        exact ⟨[], rest, rfl, by decide, (Option.some.inj h).symm⟩
      · rename_i hc
        obtain ⟨m, hm, rfl⟩ := Option.map_eq_some_iff.mp h
        obtain ⟨body, rest, rfl, hbody, rfl⟩ := ih hm
        refine ⟨c :: body, rest, rfl, ?_, rfl⟩
        have hhead : (body ++ closing ++ rest).head? = (body ++ ['|']).head? := by
          cases body <;> rfl
        rw [List.cons_append, List.infix_cons_iff, closing_prefix_cons_iff, not_or, ← hhead]
        exact ⟨hc, hbody⟩

/-! ## Which token is read -/

theorem isWord_cons_iff {c : Char} {cs : List Char} :
    IsWord (c :: cs) ↔ Text.isLetter c = true ∧ ∀ d ∈ cs, isWordChar d = true := by
  simp [IsWord, isWordChar]

theorem hasForm_wordKind {text : List Char} (h : IsWord text) : HasForm (wordKind text) text := by
  unfold wordKind
  split
  · exact ⟨h, ‹_›⟩
  split
  · exact ⟨h, ‹_›⟩
  split
  · exact ⟨h, ‹_›⟩
  split
  · exact ⟨h, ‹_›⟩
  · refine ⟨h, ?_⟩
    rw [keywords, List.mem_cons, List.mem_cons, List.mem_cons, List.mem_singleton]
    simp only [not_or, *, not_false_eq_true, and_self]

/-- The kind of a word is the one whose form it has. -/
theorem hasForm_iff_wordKind {k : TokenKind}
    (hk : k ∈ wordKinds) {text : List Char} :
    HasForm k text ↔ IsWord text ∧ wordKind text = k := by
  constructor
  · intro h
    simp only [wordKinds, List.mem_cons, List.not_mem_nil, or_false] at hk
    rcases hk with rfl | rfl | rfl | rfl | rfl
    · exact ⟨h.1, h.2 ▸ rfl⟩
    · exact ⟨h.1, h.2 ▸ rfl⟩
    · exact ⟨h.1, h.2 ▸ rfl⟩
    · exact ⟨h.1, h.2 ▸ rfl⟩
    · exact ⟨h.1, (wordKind_eq_identifier_iff text).mpr h.2⟩
  · rintro ⟨h, rfl⟩
    exact hasForm_wordKind h

theorem endsBefore_word_iff {k : TokenKind}
    (hk : k ∈ wordKinds) {text rest : List Char} :
    EndsBefore rest k text ↔ ∀ d ∈ rest.head?, isWordChar d = false := by
  simp only [wordKinds, List.mem_cons, List.not_mem_nil, or_false] at hk
  rcases hk with rfl | rfl | rfl | rfl | rfl <;> simp [EndsBefore, isWordChar]

theorem lexeme_of_hasForm_word {k : TokenKind}
    (hk : k ∈ wordKinds) {c : Char} {t rest : List Char}
    (h : HasForm k (c :: t)) (hrest : EndsBefore rest k (c :: t)) :
    lexeme c (t ++ rest) = (k, t.length) := by
  obtain ⟨hword, hkind⟩ := (hasForm_iff_wordKind hk).mp h
  obtain ⟨hc, ht⟩ := isWord_cons_iff.mp hword
  rw [lexeme_of_isLetter hc, takeWhile_append_eq ht ((endsBefore_word_iff hk).mp hrest), hkind]

theorem lexeme_of_not_mem_marks {c : Char} (hc : c ∉ marks) (hletter : Text.isLetter c = false)
    (cs : List Char) : lexeme c cs = (.undefined, 0) := by
  unfold lexeme
  split
  case h_11 => simp [hletter]
  all_goals exact absurd (by decide) hc

theorem comment_of_head?_ne {cs : List Char} (h : cs.head? ≠ some '|') :
    comment cs = (.comment, (cs.takeWhile (· != '\n')).length) := by
  unfold comment
  split
  · exact absurd rfl h
  · rfl

theorem comment_of_isLineComment {body rest : List Char} (hbody : body.head? ≠ some '|')
    (hline : '\n' ∉ body) (hrest : ∀ d ∈ rest.head?, d = '\n') :
    comment (body ++ rest) = (.comment, body.length) := by
  have hhead : (body ++ rest).head? ≠ some '|' := by
    cases body with
    | nil => exact fun h => absurd (hrest '|' h) (by decide)
    | cons d body => exact hbody
  have htake : (body ++ rest).takeWhile (· != '\n') = body := by
    apply takeWhile_append_eq (forall_bne_of_notMem hline)
    intro d hd
    rw [hrest d hd]
    rfl
  rw [comment_of_head?_ne hhead, htake]

theorem comment_of_isBlockComment {body : List Char} (h : ¬closing <:+: body ++ ['|'])
    (rest : List Char) :
    comment ('|' :: body ++ closing ++ rest) = (.comment, body.length + 3) := by
  rw [List.cons_append, List.cons_append, comment, commentEnd?_append h]

/-- A text that has the form of some kind, and may end where it ends, is read. -/
theorem lexeme_of_hasForm {k : TokenKind} {c : Char} {t rest : List Char} (h : HasForm k (c :: t))
    (hrest : EndsBefore rest k (c :: t)) : lexeme c (t ++ rest) = (k, t.length) := by
  cases k with
  | eof | unlisted => cases h
  | comma | period | questionMark | leftParen | rightParen | multiply | add | colonDash =>
      cases h
      rfl
  | colon =>
      cases h
      exact if_neg hrest
  | schemes | facts | rules | queries | identifier =>
      exact lexeme_of_hasForm_word (by decide) h hrest
  | constant =>
      obtain ⟨body, heq, hbody⟩ := h
      cases heq
      have hend := constantEnd?_append hbody rest
      simp [lexeme, hend]
  | unterminatedConstant =>
      obtain ⟨body, heq, hbody⟩ := h
      cases heq
      cases hrest
      simp [lexeme, constantEnd?_eq_none_iff.mpr hbody]
  | comment =>
      rcases h with hline | ⟨body, heq, hbody⟩
      · obtain ⟨body, heq, hhead, hbody⟩ := hline
        cases heq
        exact comment_of_isLineComment hhead hbody (hrest ⟨_, rfl, hhead, hbody⟩)
      · cases heq
        have hcomment := comment_of_isBlockComment hbody rest
        simpa [lexeme, closing] using hcomment
  | unterminatedComment =>
      obtain ⟨body, heq, hbody⟩ := h
      cases heq
      cases hrest
      simp [lexeme, comment, commentEnd?_eq_none_iff.mpr hbody]
  | undefined =>
      obtain ⟨d, heq, -, hletter, hmarks⟩ := h
      cases heq
      exact lexeme_of_not_mem_marks hmarks hletter rest

theorem not_isLineComment_of_isBlockComment {text : List Char} (h : IsBlockComment text) :
    ¬IsLineComment text := by
  obtain ⟨body, rfl, -⟩ := h
  rintro ⟨body', heq, hhead, -⟩
  cases heq
  exact hhead rfl

theorem exists_hasForm_comment (cs : List Char) :
    ∃ k t rest, cs = t ++ rest ∧ comment cs = (k, t.length) ∧ HasForm k ('#' :: t) ∧
      EndsBefore rest k ('#' :: t) := by
  by_cases hhead : cs.head? = some '|'
  · obtain ⟨body, rfl⟩ := List.head?_eq_some_iff.mp hhead
    cases hend : commentEnd? body with
    | none =>
        refine ⟨.unterminatedComment, '|' :: body, [], by simp, ?_, ?_, rfl⟩
        · rw [comment, hend]
          rfl
        · exact ⟨body, rfl, commentEnd?_eq_none_iff.mp hend⟩
    | some n =>
        obtain ⟨inner, rest, rfl, hinner, -⟩ := exists_of_commentEnd? hend
        have hform : IsBlockComment ('#' :: '|' :: inner ++ closing) := ⟨inner, rfl, hinner⟩
        refine ⟨.comment, '|' :: inner ++ closing, rest, by simp, ?_, .inr hform, ?_⟩
        · have hcomment := comment_of_isBlockComment hinner rest
          simpa [closing] using hcomment
        · exact fun hline => absurd hline (not_isLineComment_of_isBlockComment hform)
  · have hall : ∀ d ∈ cs.takeWhile (· != '\n'), d ≠ '\n' := fun d hd => by
      simpa using List.all_eq_true.mp List.all_takeWhile d hd
    have htake : (cs.takeWhile (· != '\n')).head? ≠ some '|' := by
      rw [List.head?_takeWhile]
      exact fun h => hhead (Option.filter_eq_some_iff.mp h).1
    refine ⟨.comment, _, cs.dropWhile (· != '\n'), List.takeWhile_append_dropWhile.symm,
      comment_of_head?_ne hhead, .inl ⟨_, rfl, htake, fun hmem => hall _ hmem rfl⟩, ?_⟩
    intro _ d hd
    have hstops := List.head?_dropWhile_not (· != '\n') cs
    rw [hd] at hstops
    simpa using hstops

theorem exists_hasForm_quoted (cs : List Char) :
    ∃ k t rest, cs = t ++ rest ∧ lexeme '\x27' cs = (k, t.length) ∧ HasForm k ('\x27' :: t) ∧
      EndsBefore rest k ('\x27' :: t) := by
  cases hend : constantEnd? cs with
  | none =>
      refine ⟨.unterminatedConstant, cs, [], by simp, by simp [lexeme, hend], ?_, rfl⟩
      exact ⟨cs, rfl, constantEnd?_eq_none_iff.mp hend⟩
  | some n =>
      obtain ⟨body, rest, rfl, hbody, rfl⟩ := constantEnd?_eq_some_iff.mp hend
      refine ⟨.constant, body ++ ['\x27'], rest, by simp, by simp [lexeme, hend], ?_, trivial⟩
      exact ⟨body, rfl, hbody⟩

theorem exists_hasForm_colon (cs : List Char) :
    ∃ k t rest, cs = t ++ rest ∧ lexeme ':' cs = (k, t.length) ∧ HasForm k (':' :: t) ∧
      EndsBefore rest k (':' :: t) := by
  by_cases hhead : cs.head? = some '-'
  · obtain ⟨rest, rfl⟩ := List.head?_eq_some_iff.mp hhead
    exact ⟨.colonDash, ['-'], rest, rfl, rfl, rfl, trivial⟩
  · exact ⟨.colon, [], cs, rfl, if_neg hhead, rfl, hhead⟩

/-- What is read has the form of its kind, and may end where it ends. -/
theorem exists_hasForm {c : Char} (hc : Text.isBlank c = false) (cs : List Char) :
    ∃ k t rest, cs = t ++ rest ∧ lexeme c cs = (k, t.length) ∧ HasForm k (c :: t) ∧
      EndsBefore rest k (c :: t) := by
  by_cases hletter : Text.isLetter c = true
  · have hword : IsWord (c :: cs.takeWhile isWordChar) :=
      isWord_cons_iff.mpr ⟨hletter, fun d hd => List.all_eq_true.mp List.all_takeWhile d hd⟩
    have hmem := lexeme_mem_of_isLetter hletter cs
    rw [lexeme_of_isLetter hletter] at hmem
    refine ⟨_, cs.takeWhile isWordChar, cs.dropWhile isWordChar,
      List.takeWhile_append_dropWhile.symm, lexeme_of_isLetter hletter cs,
      hasForm_wordKind hword, (endsBefore_word_iff hmem).mpr ?_⟩
    intro d hd
    have hstops := List.head?_dropWhile_not isWordChar cs
    rwa [hd] at hstops
  · by_cases hmarks : c ∈ marks
    · simp only [marks, List.mem_cons, List.not_mem_nil, or_false] at hmarks
      rcases hmarks with rfl | rfl | rfl | rfl | rfl | rfl | rfl | rfl | rfl | rfl
      · exact exists_hasForm_colon cs
      · exact exists_hasForm_comment cs
      · exact exists_hasForm_quoted cs
      all_goals exact ⟨_, [], cs, rfl, rfl, rfl, trivial⟩
    · rw [Bool.not_eq_true] at hletter
      exact ⟨.undefined, [], cs, rfl, lexeme_of_not_mem_marks hmarks hletter cs,
        ⟨c, rfl, hc, hletter, hmarks⟩, trivial⟩

/-- The form of a token and what follows it decide that it is read. -/
theorem lexeme_eq_iff {k : TokenKind} {c : Char} {t rest : List Char}
    (hc : Text.isBlank c = false) :
    lexeme c (t ++ rest) = (k, t.length) ↔
      HasForm k (c :: t) ∧ EndsBefore rest k (c :: t) := by
  constructor
  · intro h
    obtain ⟨k', t', rest', happend, hlexeme, hform, hends⟩ := exists_hasForm hc (t ++ rest)
    obtain ⟨rfl, hlength⟩ := Prod.ext_iff.mp (h.symm.trans hlexeme)
    obtain ⟨rfl, rfl⟩ := List.append_inj happend hlength
    exact ⟨hform, hends⟩
  · exact fun h => lexeme_of_hasForm h.1 h.2

/-! ## No longer text is a token -/

theorem endsBefore_nil (k : TokenKind) (text : List Char) : EndsBefore [] k text := by
  cases k <;> simp [EndsBefore]

theorem HasForm.ne_nil {k : TokenKind} {text : List Char} (h : HasForm k text) : text ≠ [] := by
  rintro rfl
  cases k <;> simp [HasForm, IsWord, IsLineComment, IsBlockComment] at h

/-- A text has the form of one kind only. -/
theorem HasForm.kind_unique {k k' : TokenKind} {text : List Char} (h : HasForm k text)
    (h' : HasForm k' text) : k = k' := by
  obtain ⟨c, t, rfl⟩ := List.exists_cons_of_ne_nil h.ne_nil
  have hread := lexeme_of_hasForm h (endsBefore_nil k (c :: t))
  rw [lexeme_of_hasForm h' (endsBefore_nil k' (c :: t))] at hread
  exact (congrArg Prod.fst hread).symm

theorem length_le_of_word {k : TokenKind}
    (hk : k ∈ wordKinds) {c : Char} {t : List Char}
    (h : HasForm k (c :: t)) (rest : List Char) : t.length ≤ (lexeme c (t ++ rest)).2 := by
  obtain ⟨hc, ht⟩ := isWord_cons_iff.mp ((hasForm_iff_wordKind hk).mp h).1
  rw [lexeme_of_isLetter hc, List.takeWhile_append_of_pos ht]
  simp

theorem length_le_of_quoted {t : List Char} (ht : '\x27' ∉ t) (rest : List Char) :
    t.length ≤ (lexeme '\x27' (t ++ rest)).2 := by
  cases hend : constantEnd? (t ++ rest) with
  | none => simp [lexeme, hend]
  | some n =>
      obtain ⟨body, rest', happend, -, rfl⟩ := constantEnd?_eq_some_iff.mp hend
      have hread : (lexeme '\x27' (t ++ rest)).2 = (body ++ ['\x27']).length := by
        simp [lexeme, hend]
      have hbody : body ++ ['\x27'] <+: t ++ rest := ⟨rest', by simp [happend]⟩
      by_contra hlt
      have hinside := List.prefix_of_prefix_length_le hbody (List.prefix_append t rest) (by omega)
      exact ht (hinside.subset (by simp))

theorem length_le_of_unclosed {t : List Char} (ht : ¬closing <:+: t) (rest : List Char) :
    t.length + 1 ≤ (comment ('|' :: t ++ rest)).2 := by
  cases hend : commentEnd? (t ++ rest) with
  | none => simp [comment, hend]
  | some n =>
      obtain ⟨body, rest', happend, -, rfl⟩ := exists_of_commentEnd? hend
      have hread : (comment ('|' :: t ++ rest)).2 = (body ++ closing).length + 1 := by
        simp [comment, hend, closing]
      have hbody : body ++ closing <+: t ++ rest := ⟨rest', happend.symm⟩
      by_contra hlt
      have hinside := List.prefix_of_prefix_length_le hbody (List.prefix_append t rest) (by omega)
      exact ht ((List.suffix_append body closing).isInfix.trans hinside.isInfix)

theorem length_le_of_isLineComment {t : List Char} (h : IsLineComment ('#' :: t))
    (rest : List Char) : t.length ≤ (comment (t ++ rest)).2 := by
  obtain ⟨body, heq, hhead, hline⟩ := h
  cases heq
  cases t with
  | nil => exact Nat.zero_le _
  | cons d t =>
      rw [comment_of_head?_ne (by simpa using hhead),
        List.takeWhile_append_of_pos (forall_bne_of_notMem hline)]
      simp

/-- Whatever a text begins with, in any form, is not longer than what is read of it. -/
theorem length_le_of_hasForm {k : TokenKind} {c : Char} {t : List Char} (h : HasForm k (c :: t))
    (rest : List Char) : t.length ≤ (lexeme c (t ++ rest)).2 := by
  cases k with
  | eof | unlisted => cases h
  | comma | period | questionMark | leftParen | rightParen | multiply | add | colon =>
      cases h
      exact Nat.zero_le _
  | schemes | facts | rules | queries | identifier => exact length_le_of_word (by decide) h rest
  | colonDash | constant => exact (congrArg Prod.snd (lexeme_of_hasForm h trivial)).ge
  | unterminatedConstant =>
      obtain ⟨body, heq, hbody⟩ := h
      cases heq
      exact length_le_of_quoted hbody rest
  | comment =>
      rcases h with hline | hblock
      · obtain ⟨body, heq, -⟩ := id hline
        cases heq
        exact length_le_of_isLineComment hline rest
      · have hform : HasForm .comment (c :: t) := .inr hblock
        have hends : EndsBefore rest .comment (c :: t) :=
          fun hline => absurd hline (not_isLineComment_of_isBlockComment hblock)
        exact (congrArg Prod.snd (lexeme_of_hasForm hform hends)).ge
  | unterminatedComment =>
      obtain ⟨body, heq, hbody⟩ := h
      cases heq
      exact length_le_of_unclosed hbody rest
  | undefined =>
      obtain ⟨d, heq, -⟩ := h
      cases heq
      exact Nat.zero_le _

end Lexer

end LeastModel
