import LeastModel.Proofs.Grammar

/-!
# The lexemes of a text

Where a token stands does not matter to its lexeme, so a text has a list of
lexemes of its own (`Lexer.lexemes`), and so has every text that follows a token.
Words, quoted constants and marks at the beginning of a text are found again
(`lexemes_word`, `lexemes_quoted`, `lexemes_mark`), whatever follows them, where
a word must not go on. Conversely a token that carries a text has one of the
right form (`text_of_mem_scan`).
-/

namespace LeastModel

open Lexeme (mark)

/-! ## Letters and white space -/

namespace Text

theorem Ranges.mem_of_contains {ranges : Ranges} {n : Nat} (h : ranges.contains n = true) :
    n ∈ ranges.flatMap fun range => List.range' range.1 (range.2 + 1 - range.1) := by
  induction ranges with
  | nil => simp [contains] at h
  | cons range ranges ih =>
      obtain ⟨low, high⟩ := range
      rw [contains] at h
      rw [List.flatMap_cons, List.mem_append]
      split at h
      · cases h
      · split at h
        · left
          rw [List.mem_range'_1]
          dsimp only
          omega
        · exact .inr (ih h)

theorem isBlank_eq_false_of_isLetter {c : Char} (h : isLetter c = true) : isBlank c = false := by
  have hnone : ∀ n ∈ blankRanges.flatMap fun range =>
      List.range' range.1 (range.2 + 1 - range.1), letterRanges.contains n = false := by
    decide +kernel
  by_contra hblank
  have hmem := Ranges.mem_of_contains (Bool.not_eq_false _ ▸ hblank)
  rw [isLetter, hnone _ hmem] at h
  cases h

end Text

/-! ## Names and constants -/

/-- The words that open sections. -/
def keywords : List (List Char) :=
  ["Schemes".toList, "Facts".toList, "Rules".toList, "Queries".toList]

/-- A letter, then letters and digits, but none of the words that open sections. -/
def IsName (bs : Bytes) : Prop :=
  ∃ c cs, bs = Utf8.encode (c :: cs) ∧ Text.isLetter c = true ∧
    (∀ d ∈ cs, Text.isLetter d = true ∨ Text.isDigit d = true) ∧ c :: cs ∉ keywords

/-- Characters other than quotes between two quotes. -/
def IsQuoted (bs : Bytes) : Prop :=
  ∃ cs, bs = Utf8.encode ('\x27' :: cs ++ ['\x27']) ∧ '\x27' ∉ cs

namespace Lexer

theorem wordKind_eq_identifier_iff (word : List Char) :
    wordKind word = .identifier ↔ word ∉ keywords := by
  unfold wordKind keywords
  constructor
  · intro h hmem
    simp only [List.mem_cons, List.not_mem_nil, or_false] at hmem
    rcases hmem with rfl | rfl | rfl | rfl <;> revert h <;> decide
  · intro h
    simp only [List.mem_cons, List.not_mem_nil, or_false, not_or] at h
    obtain ⟨hschemes, hfacts, hrules, hqueries⟩ := h
    rw [if_neg hschemes, if_neg hfacts, if_neg hrules, if_neg hqueries]

/-! ## Where tokens start -/

theorem lexeme_of_isLetter {c : Char} (h : Text.isLetter c = true) (cs : List Char) :
    lexeme c cs =
      (wordKind (c :: cs.takeWhile isWordChar), (cs.takeWhile isWordChar).length) := by
  unfold lexeme
  split
  case h_11 => rw [if_pos h]
  all_goals exact absurd h (by decide)

/-- The kinds of words. -/
def wordKinds : List TokenKind := [.schemes, .facts, .rules, .queries, .identifier]

theorem lexeme_mem_of_isLetter {c : Char} (h : Text.isLetter c = true) (cs : List Char) :
    (lexeme c cs).1 ∈ wordKinds := by
  rw [lexeme_of_isLetter h]
  dsimp only
  unfold wordKind
  repeat' split
  all_goals decide

/-- A token is a word, or a quoted constant, or its text does not matter. -/
theorem lexeme_cases (c : Char) (cs : List Char) :
    Text.isLetter c = true ∨
      (∃ n, c = '\x27' ∧ constantEnd? cs = some n ∧ lexeme c cs = (.constant, n)) ∨
      (lexeme c cs).1.carriesText = false ∧ (lexeme c cs).1 ≠ .eof := by
  by_cases hletter : Text.isLetter c = true
  · exact .inl hletter
  · right
    unfold lexeme
    split
    case h_8 => split <;> exact .inr (by decide)
    case h_9 =>
      right
      unfold comment
      split
      · split <;> exact ⟨rfl, nofun⟩
      · exact ⟨rfl, nofun⟩
    case h_10 =>
      split
      · rename_i n hn
        exact .inl ⟨n, rfl, hn, rfl⟩
      · exact .inr ⟨rfl, nofun⟩
    case h_11 =>
      rw [if_neg hletter]
      exact .inr (by decide)
    all_goals exact .inr (by decide)

/-- No token but the last one marks the end of the text. -/
theorem lexeme_ne_eof (c : Char) (cs : List Char) : (lexeme c cs).1 ≠ .eof := by
  obtain hletter | ⟨n, -, -, hlexeme⟩ | ⟨-, hne⟩ := lexeme_cases c cs
  · intro heof
    have hmem := lexeme_mem_of_isLetter hletter cs
    rw [heof] at hmem
    exact absurd hmem (by decide)
  · rw [hlexeme]
    exact nofun
  · exact hne

theorem exists_of_scan (skip : Nat) (p : Position) (cs : List Char) :
    ∃ front last, scan skip p cs = front ++ [last] ∧ last.kind = .eof ∧
      ∀ t ∈ front, t.kind ≠ .eof := by
  induction cs generalizing skip p with
  | nil => exact ⟨[], _, by rw [scan]; rfl, rfl, by simp⟩
  | cons c cs ih =>
      cases skip with
      | succ skip => exact ih skip (p.next c)
      | zero =>
          rw [scan]
          split
          · exact ih 0 (p.next c)
          · obtain ⟨front, last, hscan, hlast, hfront⟩ := ih (lexeme c cs).2 (p.next c)
            refine ⟨_ :: front, last, congrArg (_ :: ·) hscan, hlast, ?_⟩
            exact List.forall_mem_cons.mpr ⟨lexeme_ne_eof c cs, hfront⟩

/-! ## Lexemes without their places -/

/-- The lexemes of a text. -/
def lexemes (cs : List Char) : List Lexeme := (scan 0 .start cs).map (·.lexeme)

theorem map_lexeme_scan (skip : Nat) (p : Position) (cs : List Char) :
    (scan skip p cs).map (·.lexeme) = lexemes (cs.drop skip) := by
  induction cs generalizing skip p with
  | nil => simp [lexemes, scan, Token.lexeme]
  | cons c cs ih =>
      cases skip with
      | succ skip => simpa [scan] using ih skip (p.next c)
      | zero =>
          rw [List.drop_zero, lexemes, scan, scan]
          split
          · rw [ih, ih]
          · rw [List.map_cons, List.map_cons, ih, ih]
            rfl

theorem lexemes_nil : lexemes [] = [mark .eof] := rfl

theorem lexemes_of_isBlank {c : Char} (h : Text.isBlank c = true) (cs : List Char) :
    lexemes (c :: cs) = lexemes cs := by
  rw [lexemes, scan, if_pos h, map_lexeme_scan, List.drop_zero]

theorem lexemes_cons {c : Char} (h : Text.isBlank c = false) (cs : List Char) :
    lexemes (c :: cs) =
      .of (lexeme c cs).1 (Utf8.encode (c :: cs.take (lexeme c cs).2)) ::
        lexemes (cs.drop (lexeme c cs).2) := by
  rw [lexemes, scan, if_neg (by simp [h]), List.map_cons, map_lexeme_scan]
  rfl

/-! ## Tokens at the beginning of a text -/

theorem forall_bne_of_notMem {stop : Char} {cs : List Char} (h : stop ∉ cs) :
    ∀ d ∈ cs, (d != stop) = true :=
  fun _ hd => bne_iff_ne.mpr fun heq => h (heq ▸ hd)

theorem takeWhile_append_eq {p : Char → Bool} {cs rest : List Char}
    (hcs : ∀ d ∈ cs, p d = true) (hrest : ∀ d ∈ rest.head?, p d = false) :
    (cs ++ rest).takeWhile p = cs := by
  rw [List.takeWhile_append_of_pos hcs]
  cases rest with
  | nil => simp
  | cons d rest =>
      have hd := hrest d rfl
      simp [hd]

theorem lexemes_word {c : Char} {cs rest : List Char} (hc : Text.isLetter c = true)
    (hcs : ∀ d ∈ cs, isWordChar d = true) (hrest : ∀ d ∈ rest.head?, isWordChar d = false) :
    lexemes (c :: cs ++ rest) =
      .of (wordKind (c :: cs)) (Utf8.encode (c :: cs)) :: lexemes rest := by
  rw [List.cons_append, lexemes_cons (Text.isBlank_eq_false_of_isLetter hc),
    lexeme_of_isLetter hc, takeWhile_append_eq hcs hrest]
  simp

theorem constantEnd?_append {cs : List Char} (h : '\x27' ∉ cs) (rest : List Char) :
    constantEnd? (cs ++ '\x27' :: rest) = some (cs.length + 1) := by
  induction cs with
  | nil => rfl
  | cons c cs ih =>
      have hc : c ≠ '\x27' := fun heq => h (heq ▸ List.mem_cons_self)
      rw [List.cons_append, constantEnd?, if_neg hc, ih fun hmem => h (List.mem_cons_of_mem c hmem)]
      rfl

theorem lexemes_quoted {cs : List Char} (h : '\x27' ∉ cs) (rest : List Char) :
    lexemes ('\x27' :: cs ++ ['\x27'] ++ rest) =
      ⟨.constant, Utf8.encode ('\x27' :: cs ++ ['\x27'])⟩ :: lexemes rest := by
  have hblank : Text.isBlank '\x27' = false := by decide
  have hlexeme : lexeme '\x27' (cs ++ '\x27' :: rest) = (.constant, cs.length + 1) := by
    simp [lexeme, constantEnd?_append h]
  have htext : '\x27' :: cs ++ ['\x27'] ++ rest = '\x27' :: (cs ++ '\x27' :: rest) := by simp
  have htake : (cs ++ '\x27' :: rest).take (cs.length + 1) = cs ++ ['\x27'] := by
    rw [List.take_length_add_append]
    rfl
  have hdrop : (cs ++ '\x27' :: rest).drop (cs.length + 1) = rest := by
    rw [List.drop_length_add_append]
    rfl
  rw [htext, lexemes_cons hblank, hlexeme, htake, hdrop]
  rfl

theorem lexemes_mark {c : Char} {k : TokenKind} (hc : Text.isBlank c = false)
    (hk : k.carriesText = false) {cs : List Char} (h : lexeme c cs = (k, 0)) :
    lexemes (c :: cs) = mark k :: lexemes cs := by
  rw [lexemes_cons hc, h, Lexeme.of_eq_mark hk, List.drop_zero]

/-! ## Texts of tokens -/

theorem constantEnd?_spec {cs : List Char} {n : Nat} (h : constantEnd? cs = some n) :
    ∃ body, cs.take n = body ++ ['\x27'] ∧ '\x27' ∉ body := by
  induction cs generalizing n with
  | nil => cases h
  | cons c cs ih =>
      rw [constantEnd?] at h
      split at h
      · rename_i hc
        cases h
        exact ⟨[], by simp [hc], by simp⟩
      · rename_i hc
        obtain ⟨m, hm, rfl⟩ := Option.map_eq_some_iff.mp h
        obtain ⟨body, htake, hbody⟩ := ih hm
        refine ⟨c :: body, by simp [htake], ?_⟩
        simp [hbody, Ne.symm hc]

theorem isName_of_lexeme {c : Char} {cs : List Char} (h : (lexeme c cs).1 = .identifier) :
    IsName (Utf8.encode (c :: cs.take (lexeme c cs).2)) := by
  obtain hletter | ⟨n, -, -, hlexeme⟩ | ⟨hnone, -⟩ := lexeme_cases c cs
  · rw [lexeme_of_isLetter hletter] at h ⊢
    have htake : cs.take (cs.takeWhile isWordChar).length = cs.takeWhile isWordChar :=
      (List.prefix_iff_eq_take.mp (List.takeWhile_prefix isWordChar)).symm
    refine ⟨c, cs.takeWhile isWordChar, by rw [htake], hletter, ?_, ?_⟩
    · intro d hd
      have hword : isWordChar d = true := List.all_eq_true.mp List.all_takeWhile d hd
      simpa [isWordChar] using hword
    · exact (wordKind_eq_identifier_iff _).mp h
  · rw [hlexeme] at h
    cases h
  · rw [h] at hnone
    cases hnone

theorem isQuoted_of_lexeme {c : Char} {cs : List Char} (h : (lexeme c cs).1 = .constant) :
    IsQuoted (Utf8.encode (c :: cs.take (lexeme c cs).2)) := by
  obtain hletter | ⟨n, rfl, hend, hlexeme⟩ | ⟨hnone, -⟩ := lexeme_cases c cs
  · have hmem := lexeme_mem_of_isLetter hletter cs
    rw [h] at hmem
    exact absurd hmem (by decide)
  · obtain ⟨body, htake, hbody⟩ := constantEnd?_spec hend
    exact ⟨body, by rw [hlexeme, htake, List.cons_append], hbody⟩
  · rw [h] at hnone
    cases hnone

/-- The texts of tokens are names and quoted constants. -/
theorem text_of_mem_scan {skip : Nat} {p : Position} {cs : List Char} {t : Token}
    (ht : t ∈ scan skip p cs) :
    (t.kind = .identifier → IsName t.value) ∧ (t.kind = .constant → IsQuoted t.value) := by
  induction cs generalizing skip p with
  | nil =>
      rw [scan] at ht
      cases List.mem_singleton.mp ht
      exact ⟨nofun, nofun⟩
  | cons c cs ih =>
      cases skip with
      | succ skip => exact ih ht
      | zero =>
          rw [scan] at ht
          split at ht
          · exact ih ht
          · rcases List.mem_cons.mp ht with rfl | ht
            · exact ⟨isName_of_lexeme, isQuoted_of_lexeme⟩
            · exact ih ht

end Lexer

/-- The tokens of a text end with the end of the text, which occurs nowhere else. -/
theorem lex_eq_concat (source : Bytes) :
    ∃ front last, lex source = front ++ [last] ∧ last.kind = .eof ∧ ∀ t ∈ front, t.kind ≠ .eof :=
  Lexer.exists_of_scan 0 .start (Utf8.decode source)

theorem map_lexeme_lex (source : Bytes) :
    (lex source).map (·.lexeme) = Lexer.lexemes (Utf8.decode source) := rfl

end LeastModel
