import LeastModel.Proofs.Lexing
import LeastModel.Proofs.Utf8
import Mathlib.Data.List.DropRight

/-!
# Tokens and their places

The tokens of a text tile it: what lies between two tokens is white space, and
the values of the tokens with these gaps, put side by side, are the text again.
The place of a token says how much of the text comes before it. Both are
statements about every tail of a text, so `Tiles` is about the characters that
come after others, and is built up token by token (`Tiles.cons`).

## Main statement

`lex_lossless`: reading tokens loses no character, and counts all of them.
-/

namespace LeastModel

/-! ## Places -/

namespace Position

/-- The place behind a text: one line for each line feed, and in the last line
one column for each character. -/
def after (before : List Char) : Position :=
  ⟨before.count '\n' + 1, (before.rtakeWhile (· ≠ '\n')).length + 1⟩

theorem after_nil : after [] = start := rfl

theorem after_concat (before : List Char) (c : Char) :
    after (before ++ [c]) = (after before).next c := by
  by_cases hc : c = '\n'
  · have hcol : (before ++ [c]).rtakeWhile (· ≠ '\n') = [] :=
      List.rtakeWhile_concat_neg _ _ _ (by simp [hc])
    rw [after, hcol, next, if_pos hc]
    simp [after, hc]
  · have hcol : (before ++ [c]).rtakeWhile (· ≠ '\n') = before.rtakeWhile (· ≠ '\n') ++ [c] :=
      List.rtakeWhile_concat_pos _ _ _ (by simpa using hc)
    rw [after, hcol, next, if_neg hc]
    simp [after, List.count_append, hc]

/-- A longer text leads to a later place. -/
theorem after_append_lt (before : List Char) {more : List Char} (hmore : more ≠ []) :
    (after before).line < (after (before ++ more)).line ∨
      (after before).line = (after (before ++ more)).line ∧
        (after before).col < (after (before ++ more)).col := by
  induction more using List.reverseRecOn with
  | nil => exact absurd rfl hmore
  | append_singleton more c ih =>
      rw [← List.append_assoc, after_concat, next]
      by_cases hnil : more = []
      · subst hnil
        rw [List.append_nil]
        split
        · exact .inl (Nat.lt_succ_self _)
        · exact .inr ⟨rfl, Nat.lt_succ_self _⟩
      · split
        · rcases ih hnil with hline | ⟨hline, -⟩
          · exact .inl (Nat.lt_succ_of_lt hline)
          · exact .inl (hline ▸ Nat.lt_succ_self _)
        · rcases ih hnil with hline | ⟨hline, hcol⟩
          · exact .inl hline
          · exact .inr ⟨hline, Nat.lt_succ_of_lt hcol⟩

/-- The place of a character in a text tells how much of the text comes before it. -/
theorem eq_of_after_eq {text before before' : List Char} (h : before <+: text)
    (h' : before' <+: text) (heq : after before = after before') : before = before' := by
  have hne : ∀ (front more : List Char), more ≠ [] → after front ≠ after (front ++ more) := by
    intro front more hmore hsame
    have hlt := after_append_lt front hmore
    rw [← hsame] at hlt
    omega
  rcases List.prefix_or_prefix_of_prefix h h' with ⟨more, rfl⟩ | ⟨more, rfl⟩
  · by_cases hmore : more = []
    · rw [hmore, List.append_nil]
    · exact absurd heq (hne before more hmore)
  · by_cases hmore : more = []
    · rw [hmore, List.append_nil]
    · exact absurd heq.symm (hne before' more hmore)

end Position

namespace Token

/-- The token has the place of what comes behind `before`. -/
structure StandsBehind (t : Token) (before : List Char) : Prop where
  line : t.line = (Position.after before).line
  col : t.col = (Position.after before).col

theorem StandsBehind.eq_mk {t : Token} {before : List Char} (h : t.StandsBehind before)
    {k : TokenKind} {value : Bytes} (hkind : t.kind = k) (hvalue : t.value = value) :
    t = ⟨k, value, (Position.after before).line, (Position.after before).col⟩ := by
  obtain ⟨kind, value', line, col⟩ := t
  obtain ⟨hline, hcol⟩ := h
  dsimp only at hline hcol hkind hvalue
  rw [hline, hcol, hkind, hvalue]

instance (t : Token) (before : List Char) : Decidable (t.StandsBehind before) :=
  decidable_of_iff
    (t.line = (Position.after before).line ∧ t.col = (Position.after before).col)
    ⟨fun h => ⟨h.1, h.2⟩, fun h => ⟨h.line, h.col⟩⟩

theorem StandsBehind.after_eq {t : Token} {before before' : List Char} (h : t.StandsBehind before)
    (h' : t.StandsBehind before') : Position.after before = Position.after before' := by
  have hline : ((Position.after before).line : Int) = (Position.after before').line :=
    h.line.symm.trans h'.line
  have hcol : ((Position.after before).col : Int) = (Position.after before').col :=
    h.col.symm.trans h'.col
  exact congrArg₂ Position.mk (Int.ofNat_inj.mp hline) (Int.ofNat_inj.mp hcol)

/-- Whether the token begins behind fewer than `i` characters of the text, and
goes on behind them. -/
def Surrounds (t : Token) (text : List Char) (i : Nat) : Prop :=
  ∃ n < i, t.StandsBehind (text.take n) ∧ i < n + (Utf8.decode t.value).length

instance (t : Token) (text : List Char) (i : Nat) : Decidable (t.Surrounds text i) :=
  inferInstanceAs (Decidable (∃ n, n < i ∧ _))

theorem surrounds_iff {t : Token} {before behind : List Char} (h : t.StandsBehind before) {i : Nat}
    (hi : i ≤ (before ++ behind).length) :
    t.Surrounds (before ++ behind) i ↔
      before.length < i ∧ i < before.length + (Utf8.decode t.value).length := by
  constructor
  · rintro ⟨n, hn, hplace, hlt⟩
    have htake : (before ++ behind).take n = before :=
      Position.eq_of_after_eq (List.take_prefix n _) (List.prefix_append before behind)
        (hplace.after_eq h)
    have hlength := congrArg List.length htake
    rw [List.length_take, Nat.min_eq_left (by omega)] at hlength
    exact hlength ▸ ⟨hn, hlt⟩
  · rintro ⟨hlt, hlt'⟩
    exact ⟨before.length, hlt, by rwa [List.take_left], hlt'⟩

end Token

namespace Lexer

/-! ## Passing over characters -/

theorem scan_blanks {gap : List Char} (hgap : ∀ c ∈ gap, Text.isBlank c = true)
    (before cs : List Char) :
    scan 0 (.after before) (gap ++ cs) = scan 0 (.after (before ++ gap)) cs := by
  induction gap generalizing before with
  | nil => simp
  | cons c gap ih =>
      obtain ⟨hc, hgap⟩ := List.forall_mem_cons.mp hgap
      rw [List.cons_append, scan, if_pos hc, ← Position.after_concat, ih hgap]
      simp

theorem scan_skip (n : Nat) (before cs : List Char) :
    scan n (.after before) cs = scan 0 (.after (before ++ cs.take n)) (cs.drop n) := by
  induction cs generalizing n before with
  | nil => simp [scan]
  | cons c cs ih =>
      by_cases hn : n = 0
      · simp [hn]
      · obtain ⟨m, rfl⟩ := Nat.exists_eq_succ_of_ne_zero hn
        rw [scan, ← Position.after_concat, ih]
        simp

/-! ## Texts that are tiled by their tokens -/

/-- A token and the characters between it and the token before. -/
structure Piece where
  gap : List Char
  token : Token

/-- The characters of a piece. -/
def Piece.text (piece : Piece) : List Char := piece.gap ++ Utf8.decode piece.token.value

/-- White space, then a token of its own right, all of it behind `before`. -/
structure Piece.LiesBehind (piece : Piece) (before : List Char) : Prop where
  blank : ∀ c ∈ piece.gap, Text.isBlank c = true
  kind : piece.token.kind ≠ .eof
  /-- The value is a text, and not an empty one. -/
  value : ∃ c cs, piece.token.value = Utf8.encode (c :: cs) ∧ Text.isBlank c = false
  place : piece.token.StandsBehind (before ++ piece.gap)

/-- The pieces and white space behind them make up `text`, which comes behind
`before`; their tokens and an end of the text make up `tokens`. -/
structure Tiles (before text : List Char) (tokens : List Token) (pieces : List Piece)
    (rest : List Char) : Prop where
  tokens_eq : ∃ last : Token, tokens = pieces.map (·.token) ++ [last] ∧ last.kind = .eof ∧
    last.value = [] ∧ last.StandsBehind (before ++ text)
  text_eq : text = pieces.flatMap (·.text) ++ rest
  blank : ∀ c ∈ rest, Text.isBlank c = true
  liesBehind : ∀ (i : Nat) (piece : Piece), pieces[i]? = some piece →
    piece.LiesBehind (before ++ (pieces.take i).flatMap (·.text))

theorem Tiles.of_blank {gap : List Char} (hgap : ∀ c ∈ gap, Text.isBlank c = true)
    (before : List Char) : Tiles before gap (scan 0 (.after before) gap) [] gap where
  tokens_eq := by
    have hscan := scan_blanks hgap before []
    rw [List.append_nil] at hscan
    rw [hscan, scan]
    exact ⟨_, rfl, rfl, rfl, rfl, rfl⟩
  text_eq := rfl
  blank := hgap
  liesBehind := by simp

theorem Tiles.cons {before text rest : List Char} {tokens : List Token} {pieces : List Piece}
    {piece : Piece} (hpiece : piece.LiesBehind before)
    (h : Tiles (before ++ piece.text) text tokens pieces rest) :
    Tiles before (piece.text ++ text) (piece.token :: tokens) (piece :: pieces) rest where
  tokens_eq := by
    obtain ⟨last, rfl, hkind, hvalue, hplace⟩ := h.tokens_eq
    refine ⟨last, rfl, hkind, hvalue, ?_⟩
    rwa [← List.append_assoc]
  text_eq := by
    rw [List.flatMap_cons, List.append_assoc, ← h.text_eq]
  blank := h.blank
  liesBehind := by
    intro i other hother
    by_cases hi : i = 0
    · subst hi
      cases Option.some.inj hother
      simpa using hpiece
    · obtain ⟨k, rfl⟩ := Nat.exists_eq_succ_of_ne_zero hi
      have hbehind := h.liesBehind k other hother
      rwa [List.append_assoc, ← List.flatMap_cons, ← List.take_succ_cons] at hbehind

/-- The piece that starts with white space and goes on with a character of its token. -/
def pieceAt (before gap : List Char) (c : Char) (cs : List Char) : Piece :=
  ⟨gap, (lexeme c cs).1, Utf8.encode (c :: cs.take (lexeme c cs).2),
    (Position.after (before ++ gap)).line, (Position.after (before ++ gap)).col⟩

theorem text_pieceAt (before gap : List Char) (c : Char) (cs : List Char) :
    (pieceAt before gap c cs).text = gap ++ c :: cs.take (lexeme c cs).2 := by
  rw [Piece.text, pieceAt, Utf8.decode_encode]

theorem pieceAt_liesBehind {gap : List Char} (hgap : ∀ d ∈ gap, Text.isBlank d = true) {c : Char}
    (hc : Text.isBlank c = false) (before cs : List Char) :
    (pieceAt before gap c cs).LiesBehind before where
  blank := hgap
  kind := lexeme_ne_eof c cs
  value := ⟨c, cs.take (lexeme c cs).2, rfl, hc⟩
  place := ⟨rfl, rfl⟩

theorem scan_piece {gap : List Char} (hgap : ∀ d ∈ gap, Text.isBlank d = true) {c : Char}
    (hc : Text.isBlank c = false) (before cs : List Char) :
    scan 0 (.after before) (gap ++ c :: cs) =
      (pieceAt before gap c cs).token ::
        scan 0 (.after (before ++ (pieceAt before gap c cs).text))
          (cs.drop (lexeme c cs).2) := by
  have hskip := scan_skip (lexeme c cs).2 (before ++ gap ++ [c]) cs
  rw [Position.after_concat, List.append_assoc, List.append_assoc, List.singleton_append] at hskip
  rw [scan_blanks hgap, scan, if_neg (by simp [hc]), text_pieceAt, ← hskip]
  rfl

/-- Wherever it is begun, a scan tiles what is left of the text. -/
theorem exists_tiles (before cs : List Char) :
    ∃ pieces rest, Tiles before cs (scan 0 (.after before) cs) pieces rest := by
  -- Every token has a character, so what is behind the first token is shorter.
  induction hlength : cs.length using Nat.strongRecOn generalizing before cs with
  | _ length ih =>
      obtain ⟨gap, hgap, tail, htail, rfl⟩ : ∃ gap, (∀ c ∈ gap, Text.isBlank c = true) ∧
          ∃ tail, (∀ c ∈ tail.head?, Text.isBlank c = false) ∧ gap ++ tail = cs := by
        refine ⟨cs.takeWhile Text.isBlank, fun c hc => List.all_eq_true.mp List.all_takeWhile c hc,
          cs.dropWhile Text.isBlank, ?_, List.takeWhile_append_dropWhile⟩
        intro c hc
        have hstops := List.head?_dropWhile_not Text.isBlank cs
        rwa [hc] at hstops
      match tail with
      | [] =>
          rw [List.append_nil]
          exact ⟨[], gap, Tiles.of_blank hgap before⟩
      | c :: tail =>
          have hc : Text.isBlank c = false := htail c rfl
          obtain ⟨pieces, rest, hrest⟩ :=
            ih (tail.drop (lexeme c tail).2).length
              (by simp only [List.length_append, List.length_cons, List.length_drop] at hlength ⊢
                  omega)
              (before ++ (pieceAt before gap c tail).text) (tail.drop (lexeme c tail).2) rfl
          have htext : gap ++ c :: tail =
              (pieceAt before gap c tail).text ++ tail.drop (lexeme c tail).2 := by
            simp [text_pieceAt]
          refine ⟨pieceAt before gap c tail :: pieces, rest, ?_⟩
          rw [scan_piece hgap hc, htext]
          exact hrest.cons (pieceAt_liesBehind hgap hc before tail)

end Lexer

/-- The tokens of a text with the white space between them are the text, and each
of them, like the end of the text, has the place that the characters before it
lead to. -/
theorem lex_lossless (source : Bytes) :
    ∃ pieces rest, Lexer.Tiles [] (Utf8.decode source) (lex source) pieces rest := by
  rw [lex, ← Position.after_nil]
  exact Lexer.exists_tiles [] (Utf8.decode source)

end LeastModel
