import LeastModel.Proofs.TokenForms
import LeastModel.Proofs.TokenPlaces

/-!
# Tokens as long as they can be

A text falls into tokens and white space in many ways (`Lexer.Tiles`), but in one
way only such that every token has the form of its kind and stops where a token
of this form may stop. Read from the front, the first token is settled by what
follows it, and so are the others after it (`Lexer.Piece.LiesBehind.scan_eq`).

## Main statement

`lex_isLongestMatch`: the tokens of a text are those that tile it, such that each
is the longest match.
-/

namespace LeastModel

namespace Lexer

/-! ## Texts tiled by tokens that are as long as they can be -/

/-- A text in front of `rest` that is read as a token of some kind: it has the
form of this kind and of no other, it may end where it ends, and no longer text
that begins at the same place has any form. -/
structure IsLongestMatch (kind : TokenKind) (text rest : List Char) : Prop where
  form : HasForm kind text
  ends : EndsBefore rest kind text
  kind_unique : ∀ k, HasForm k text → k = kind
  longest : ∀ k longer, HasForm k longer → longer <+: text ++ rest → longer.length ≤ text.length

theorem IsLongestMatch.of_hasForm {k : TokenKind} {text rest : List Char} (h : HasForm k text)
    (hends : EndsBefore rest k text) : IsLongestMatch k text rest where
  form := h
  ends := hends
  kind_unique := fun k' h' => h'.kind_unique h
  longest := by
    intro k' longer h' hprefix
    obtain ⟨c, t, rfl⟩ := List.exists_cons_of_ne_nil h.ne_nil
    obtain ⟨c', t', rfl⟩ := List.exists_cons_of_ne_nil h'.ne_nil
    rw [List.cons_append, List.cons_prefix_cons] at hprefix
    obtain ⟨rfl, rest', hrest'⟩ := hprefix
    have hle := length_le_of_hasForm h' rest'
    rw [hrest', lexeme_of_hasForm h hends] at hle
    exact Nat.succ_le_succ hle

/-- All tokens are the longest matches of what the pieces from them on make up,
with `gap` behind the last piece. -/
def EachIsLongest (gap : List Char) (pieces : List Piece) : Prop :=
  ∀ front piece back, pieces = front ++ piece :: back →
    IsLongestMatch piece.token.kind (Utf8.decode piece.token.value)
      (back.flatMap (·.text) ++ gap)

theorem eachIsLongest_cons_iff {gap : List Char} {piece : Piece} {pieces : List Piece} :
    EachIsLongest gap (piece :: pieces) ↔
      IsLongestMatch piece.token.kind (Utf8.decode piece.token.value)
        (pieces.flatMap (·.text) ++ gap) ∧ EachIsLongest gap pieces := by
  constructor
  · intro h
    exact ⟨h [] piece pieces rfl, fun front other back heq => h (piece :: front) other back
      (by rw [heq, List.cons_append])⟩
  · rintro ⟨hpiece, hpieces⟩ front other back heq
    rcases List.cons_eq_append_iff.mp heq with ⟨rfl, hback⟩ | ⟨front, rfl, hfront⟩
    · cases hback
      exact hpiece
    · exact hpieces front other back hfront

theorem Tiles.tail {before text rest : List Char} {tokens : List Token} {pieces : List Piece}
    {piece : Piece} (h : Tiles before text tokens (piece :: pieces) rest) :
    ∃ behind others, text = piece.text ++ behind ∧ tokens = piece.token :: others ∧
      Tiles (before ++ piece.text) behind others pieces rest := by
  obtain ⟨last, rfl, hkind, hvalue, hplace⟩ := h.tokens_eq
  refine ⟨pieces.flatMap (·.text) ++ rest, _, ?_, rfl, ⟨last, rfl, hkind, hvalue, ?_⟩, rfl,
    h.blank, ?_⟩
  · rw [h.text_eq, List.flatMap_cons, List.append_assoc]
  · rwa [h.text_eq, List.flatMap_cons, List.append_assoc, ← List.append_assoc] at hplace
  · intro i other hother
    have hbehind := h.liesBehind (i + 1) other hother
    rwa [List.take_succ_cons, List.flatMap_cons, ← List.append_assoc] at hbehind

theorem Piece.LiesBehind.exists_text {piece : Piece} {before : List Char}
    (h : piece.LiesBehind before) :
    ∃ c cs, piece.text = piece.gap ++ c :: cs ∧ piece.token.value = Utf8.encode (c :: cs) ∧
      Utf8.decode piece.token.value = c :: cs ∧ Text.isBlank c = false := by
  obtain ⟨c, cs, hvalue, hc⟩ := h.value
  have hdecode : Utf8.decode piece.token.value = c :: cs := by rw [hvalue, Utf8.decode_encode]
  exact ⟨c, cs, by rw [Piece.text, hdecode], hvalue, hdecode, hc⟩

/-- A piece whose token is a longest match is read first. -/
theorem Piece.LiesBehind.scan_eq {piece : Piece} {before : List Char}
    (h : piece.LiesBehind before) {behind : List Char}
    (hform : HasForm piece.token.kind (Utf8.decode piece.token.value))
    (hends : EndsBefore behind piece.token.kind (Utf8.decode piece.token.value)) :
    scan 0 (.after before) (piece.text ++ behind) =
      piece.token :: scan 0 (.after (before ++ piece.text)) behind := by
  obtain ⟨c, cs, htext, hvalue, hdecode, hc⟩ := h.exists_text
  rw [hdecode] at hform hends
  have hread := lexeme_of_hasForm hform hends
  have htoken : (pieceAt before piece.gap c (cs ++ behind)).token = piece.token := by
    rw [h.place.eq_mk rfl hvalue, pieceAt, hread]
    simp
  have hscan := scan_piece h.blank hc before (cs ++ behind)
  rw [htoken, text_pieceAt, hread, List.take_left, List.drop_left, ← htext] at hscan
  rw [htext, List.append_assoc, List.cons_append, hscan, htext]

/-- The token of a piece that is read first is a longest match. -/
theorem Piece.LiesBehind.isLongestMatch {piece : Piece} {before : List Char}
    (h : piece.LiesBehind before) {behind : List Char}
    (hfirst : (scan 0 (.after before) (piece.text ++ behind)).head? = some piece.token) :
    IsLongestMatch piece.token.kind (Utf8.decode piece.token.value) behind := by
  obtain ⟨c, cs, htext, hvalue, hdecode, hc⟩ := h.exists_text
  obtain ⟨k, t, rest, happend, hread, hform, hends⟩ := exists_hasForm hc (cs ++ behind)
  rw [htext, List.append_assoc, List.cons_append, scan_piece h.blank hc] at hfirst
  have htoken : (pieceAt before piece.gap c (cs ++ behind)).token = piece.token :=
    Option.some.inj hfirst
  have hkind : k = piece.token.kind := by
    rw [← htoken, pieceAt, hread]
  have htexts : c :: t = c :: cs := by
    rw [← hdecode, ← htoken, pieceAt, Utf8.decode_encode, hread, happend, List.take_left]
  cases htexts
  rw [List.append_cancel_left happend, hdecode, ← hkind]
  exact .of_hasForm hform hends

theorem Tiles.liesBehind_head {before text rest : List Char} {tokens : List Token}
    {pieces : List Piece} {piece : Piece} (h : Tiles before text tokens (piece :: pieces) rest) :
    piece.LiesBehind before := by
  simpa using h.liesBehind 0 piece rfl

theorem Tiles.eq_scan {before text gap : List Char} {tokens : List Token} {pieces : List Piece}
    (h : Tiles before text tokens pieces gap) (hlongest : EachIsLongest gap pieces) :
    tokens = scan 0 (.after before) text := by
  induction pieces generalizing before text tokens with
  | nil =>
      obtain ⟨last, rfl, hkind, hvalue, hplace⟩ := h.tokens_eq
      obtain rfl : text = gap := h.text_eq
      have hscan := scan_blanks h.blank before []
      rw [List.append_nil] at hscan
      rw [hscan, hplace.eq_mk hkind hvalue]
      rfl
  | cons piece pieces ih =>
      obtain ⟨hpiece, hpieces⟩ := eachIsLongest_cons_iff.mp hlongest
      have hlies := h.liesBehind_head
      obtain ⟨behind, others, rfl, rfl, hothers⟩ := h.tail
      rw [← hothers.text_eq] at hpiece
      rw [hlies.scan_eq hpiece.form hpiece.ends, ih hothers hpieces]

theorem Tiles.eachIsLongest {before text gap : List Char} {pieces : List Piece}
    (h : Tiles before text (scan 0 (.after before) text) pieces gap) :
    EachIsLongest gap pieces := by
  induction pieces generalizing before text with
  | nil => exact fun front piece back heq => absurd heq (by simp)
  | cons piece pieces ih =>
      have hlies := h.liesBehind_head
      obtain ⟨behind, others, rfl, htokens, hothers⟩ := h.tail
      have hpiece := hlies.isLongestMatch (by rw [htokens]; rfl)
      rw [hlies.scan_eq hpiece.form hpiece.ends] at htokens
      obtain rfl := (List.cons.inj htokens).2
      rw [eachIsLongest_cons_iff, ← hothers.text_eq]
      exact ⟨hpiece, ih hothers⟩

end Lexer

/-- The tokens of a text are those that tile it, such that each has the form of
its kind and is as long as it can be. -/
theorem lex_isLongestMatch (source : Bytes) (tokens : List Token) :
    tokens = lex source ↔
      ∃ pieces gap, Lexer.Tiles [] (Utf8.decode source) tokens pieces gap ∧
        Lexer.EachIsLongest gap pieces := by
  rw [lex, ← Position.after_nil]
  constructor
  · rintro rfl
    obtain ⟨pieces, gap, htiles⟩ := Lexer.exists_tiles [] (Utf8.decode source)
    exact ⟨pieces, gap, htiles, htiles.eachIsLongest⟩
  · rintro ⟨pieces, gap, htiles, hlongest⟩
    exact htiles.eq_scan hlongest

-- The bar that opens a comment is no part of the mark that closes it.
example : (lex "#|#").map (·.kind) = [.unterminatedComment, .eof] := by decide
example : (lex "#||#").map (·.kind) = [.comment, .eof] := by decide

end LeastModel
