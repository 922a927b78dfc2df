import LeastModel.Proofs.Gains
import LeastModel.Proofs.SourceText
import LeastModel.Proofs.StoreEntries

/-!
# Answers of a text can be stored

An answer is made of what its program is made of. Its relation is named like the
query and has variables of the query as attributes, and its values are constants
of the facts (`Program.madeOf_of_evaluate`). All of these are texts of tokens,
and the tokens are pieces of the text of the program. So whoever can hold the
text in memory can write the lengths of everything in an answer
(`Program.storable_of_evaluate`).
-/

namespace LeastModel

variable {digest : Digest}

/-! ## Sizes of texts -/

namespace Utf8

theorem length_encode_le (cs : List Char) : (encode cs).length ≤ 4 * cs.length := by
  induction cs with
  | nil => exact le_rfl
  | cons c cs ih =>
      have hchar : (String.utf8EncodeChar c).length ≤ 4 := by
        rw [String.length_utf8EncodeChar]
        exact c.utf8Size_le_four
      rw [encode, List.flatMap_cons, List.length_append, List.length_cons]
      exact (Nat.add_le_add hchar ih).trans (by omega)

theorem length_runesFrom_le (skip : Nat) (bs : Bytes) :
    (runesFrom skip bs).length ≤ bs.length := by
  fun_induction runesFrom skip bs with
  | case1 skip => exact le_rfl
  | case2 b bs skip ih => exact ih.trans (Nat.le_succ _)
  | case3 b bs c n hsequence ih => exact Nat.succ_le_succ ih
  | case4 b bs hsequence ih => exact Nat.succ_le_succ ih

theorem length_decode_le (bs : Bytes) : (decode bs).length ≤ bs.length := by
  rw [decode, List.length_map]
  exact length_runesFrom_le 0 bs

end Utf8

namespace Lexer

theorem length_scan_le (skip : Nat) (p : Position) (cs : List Char) :
    (scan skip p cs).length ≤ cs.length + 1 := by
  fun_induction scan skip p cs with
  | case1 skip p => exact le_rfl
  | case2 skip p c cs ih => exact ih.trans (Nat.le_succ _)
  | case3 p c cs hblank ih => exact ih.trans (Nat.le_succ _)
  | case4 p c cs hblank kind n hlexeme ih => exact Nat.succ_le_succ ih

theorem length_value_le {skip : Nat} {p : Position} {cs : List Char} {t : Token}
    (h : t ∈ scan skip p cs) : t.value.length ≤ 4 * cs.length := by
  have hlater : ∀ (c : Char) (cs : List Char), 4 * cs.length ≤ 4 * (c :: cs).length :=
    fun c cs => Nat.mul_le_mul_left 4 (Nat.le_succ _)
  fun_induction scan skip p cs with
  | case1 skip p =>
      cases List.mem_singleton.mp h
      exact Nat.zero_le _
  | case2 skip p c cs ih => exact (ih h).trans (hlater c cs)
  | case3 p c cs hblank ih => exact (ih h).trans (hlater c cs)
  | case4 p c cs hblank kind n hlexeme ih =>
      rcases List.mem_cons.mp h with rfl | h
      · have hlength : (c :: cs.take n).length ≤ (c :: cs).length := by simp
        exact (Utf8.length_encode_le _).trans (Nat.mul_le_mul_left 4 hlength)
      · exact (ih h).trans (hlater c cs)

end Lexer

namespace Grammar

theorem length_significant_le (tokens : List Token) :
    (significant tokens).length ≤ tokens.length + 1 := by
  have hfilter := List.length_filter_le (fun t : Token => decide (t.kind ≠ .comment)) tokens
  unfold significant
  dsimp only
  split
  · omega
  · rw [List.length_append]
    exact Nat.add_le_add_right hfilter 1

end Grammar

theorem Lexeme.length_le_commaSeparated {items : List (List Lexeme)}
    (h : ∀ item ∈ items, item ≠ []) : items.length ≤ (commaSeparated items).length := by
  unfold commaSeparated
  induction items with
  | nil => exact le_rfl
  | cons item items ih =>
      obtain ⟨hitem, hitems⟩ := List.forall_mem_cons.mp h
      have hpos := List.length_pos_iff.mpr hitem
      cases items with
      | nil => simpa using Nat.succ_le_of_lt hpos
      | cons next items =>
          rw [List.intercalate_cons_cons, List.length_append, List.length_append, List.length_cons,
            List.length_singleton]
          have hrest := ih hitems
          omega

theorem Atom.length_openNames_le (a : Atom) : a.openNames.length ≤ a.terms.length := by
  have hsub : a.openNames ⊆ a.terms.map (·.value) := by
    intro name hname
    obtain ⟨t, ht, -, rfl⟩ := (a.mem_openNames name).mp hname
    exact List.mem_map_of_mem ht
  simpa using (List.subperm_of_subset a.nodup_openNames hsub).length_le

theorem Atom.arity_le_length_lexemes (a : Atom) : a.arity ≤ a.lexemes.length := by
  have hterms : (a.terms.map fun t => [t.lexeme]).length ≤
      (Lexeme.commaSeparated (a.terms.map fun t => [t.lexeme])).length := by
    apply Lexeme.length_le_commaSeparated
    simp
  rw [List.length_map] at hterms
  simp only [Atom.arity, Atom.lexemes, List.length_append]
  omega

namespace Program

variable {source : Bytes} {p : Program}

theorem length_lexemes_le (h : parse source = .ok p) : p.lexemes.length ≤ source.length + 2 := by
  obtain ⟨front, hfront, hread⟩ := ofTokens_eq_ok_iff.mp h
  rw [hread.lexemes, List.length_map]
  calc front.length
      ≤ (Grammar.significant (lex source)).length := hfront.length_le
    _ ≤ (lex source).length + 1 := Grammar.length_significant_le _
    _ ≤ (Utf8.decode source).length + 1 + 1 := Nat.add_le_add_right (Lexer.length_scan_le _ _ _) 1
    _ ≤ source.length + 1 + 1 := by have := Utf8.length_decode_le source; omega

theorem length_text_le (h : parse source = .ok p) {x : Lexeme} (hx : x ∈ p.lexemes) :
    x.text.length ≤ 4 * source.length := by
  obtain ⟨front, hfront, hread⟩ := ofTokens_eq_ok_iff.mp h
  rw [hread.lexemes] at hx
  obtain ⟨t, ht, rfl⟩ := List.mem_map.mp hx
  have htext : t.lexeme.text.length ≤ t.value.length := by
    rw [Token.lexeme, Lexeme.of]
    split <;> simp
  rcases Grammar.mem_of_mem_significant (hfront.subset ht) with hmem | rfl
  · have hvalue := Lexer.length_value_le hmem
    have hdecode := Utf8.length_decode_le source
    omega
  · exact Nat.zero_le _

theorem length_name_le (h : parse source = .ok p) {a : Atom} (ha : a ∈ p.atoms) :
    a.name.length ≤ 4 * source.length :=
  length_text_le h (x := ⟨.identifier, a.name⟩)
    (lexemes_subset_of_mem_atoms ha (by simp [Atom.lexemes]))

theorem length_value_le (h : parse source = .ok p) {a : Atom} (ha : a ∈ p.atoms) {t : Term}
    (ht : t ∈ a.terms) : t.value.length ≤ 4 * source.length :=
  length_text_le h (x := t.lexeme)
    (lexemes_subset_of_mem_atoms ha (Atom.lexeme_mem_lexemes ht))

theorem length_le_of_mem_domain (h : parse source = .ok p) {v : Bytes} (hv : v ∈ p.domain) :
    v.length ≤ 4 * source.length := by
  rw [domain, List.mem_mergeSort, List.mem_eraseDups, List.mem_flatMap] at hv
  obtain ⟨fact, hfact, hv⟩ := hv
  obtain ⟨t, ht, rfl⟩ := List.mem_map.mp hv
  exact length_value_le h (mem_atoms.mpr (.inr (.inl hfact))) (List.mem_filter.mp ht).1

theorem arity_query_le (h : parse source = .ok p) {query : Atom} (hquery : query ∈ p.queries) :
    query.arity ≤ source.length + 2 := by
  have hsub : query.lexemes.Sublist p.lexemes := by
    have hline : query.lexemes.Sublist query.queryLexemes := List.sublist_append_left _ _
    have hlines : query.queryLexemes.Sublist (p.queries.flatMap (·.queryLexemes)) :=
      List.sublist_flatten_of_mem (List.mem_map_of_mem hquery)
    exact ((hline.trans hlines).trans (List.sublist_append_right _ _)).trans
      (List.sublist_append_left _ _)
  calc query.arity
      ≤ query.lexemes.length := query.arity_le_length_lexemes
    _ ≤ p.lexemes.length := hsub.length_le
    _ ≤ source.length + 2 := length_lexemes_le h

/-! ## Storable answers -/

theorem storable_of_madeOf (h : parse source = .ok p) (hsource : source.length < 2 ^ 62)
    {answer : Answer digest} (hquery : answer.query ∈ p.queries) (hmade : answer.MadeOf p.domain) :
    Store.Storable answer := by
  obtain ⟨query, relation⟩ := answer
  obtain ⟨hwell, hrelation, hattributes, hvalues⟩ := hmade
  dsimp only at hquery hwell hrelation hattributes hvalues
  have hatom : query ∈ p.atoms := mem_atoms.mpr (.inr (.inr (.inr hquery)))
  have hname : query.name.length < 2 ^ 64 := (length_name_le h hatom).trans_lt (by omega)
  have hterms : ∀ t ∈ query.terms, t.value.length < 2 ^ 64 := fun t ht =>
    (length_value_le h hatom ht).trans_lt (by omega)
  have harity : query.terms.length < 2 ^ 64 := (arity_query_le h hquery).trans_lt (by omega)
  have hschema : Codec.Countable relation.schema := by
    rw [hattributes]
    refine ⟨query.length_openNames_le.trans_lt harity, ?_⟩
    intro name hname
    obtain ⟨t, ht, -, rfl⟩ := (query.mem_openNames name).mp hname
    exact hterms t ht
  have htuples : ∀ t ∈ relation.tuples, Codec.Countable t := by
    intro t ht
    refine ⟨(hwell.arity t ht).trans_lt hschema.1, ?_⟩
    intro v hv
    exact (length_le_of_mem_domain h (hvalues t ht v hv)).trans_lt (by omega)
  have hname' : relation.name.length < 2 ^ 64 := hrelation ▸ hname
  exact ⟨⟨hname, harity, hterms, hname', hschema⟩, htuples⟩

/-- Answers to the queries of a text that fits in memory can be stored. -/
theorem storable_of_evaluate (h : parse source = .ok p) (hsource : source.length < 2 ^ 62)
    {options : Options} {result : Result digest} (hresult : Quiet.evaluate options p = .ok result) :
    result.answers.map (·.query) = p.queries ∧
      ∀ a ∈ result.answers, a.relation.WellFormed ∧ Store.Storable a := by
  obtain ⟨-, -, hqueries, hmade⟩ := madeOf_of_evaluate hresult
  refine ⟨hqueries, ?_⟩
  intro a ha
  have hquery : a.query ∈ p.queries := hqueries ▸ List.mem_map_of_mem ha
  exact ⟨(hmade a ha).wellFormed, storable_of_madeOf h hsource hquery (hmade a ha)⟩

end Program

end LeastModel
