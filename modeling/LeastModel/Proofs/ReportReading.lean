import LeastModel.Proofs.Delimiting
import LeastModel.Proofs.Lexing
import LeastModel.Proofs.Reports
import LeastModel.Proofs.Utf8

/-!
# Reading reports

Nothing is escaped in a report. A value may contain text that looks like more
bindings, more lines or the header of another query, and still a report in text
style can be read back. A number ends at the bracket behind it, a value at its
second quote, and how many lines belong to a query is said in front of them. So
every part of a report *delimits* itself (`Delimits`): two parts of the same kind,
whatever stands behind them, give the same text only if they are the same. What is
read back are the tuples in ascending order, and there is one such order for a set of
tuples (`Report.Entry.eq_sorted_of_perm`).

## Main statement

`Report.writtenText_eq_iff`: the reports on two lists of answers to the same queries
are the same if and only if the answers are the same sets of tuples.
-/

namespace LeastModel

/-! ## Characters that end a text -/

/-- A text that ends where a character first occurs. -/
theorem delimits_upTo (stop : Char) :
    Delimits (fun cs : List Char => stop ∉ cs) fun cs => Utf8.encode (cs ++ [stop]) := by
  intro cs ds hcs hds rest more heq
  have hupTo {cs : List Char} (h : stop ∉ cs) (rest : Bytes) :
      (Utf8.decode (Utf8.encode (cs ++ [stop]) ++ rest)).takeWhile (· != stop) = cs := by
    rw [Utf8.decode_encode_append, List.append_assoc]
    exact Lexer.takeWhile_append_eq (Lexer.forall_bne_of_notMem h) (by simp)
  have hchars : cs = ds := by rw [← hupTo hcs rest, heq, hupTo hds more]
  subst hchars
  exact ⟨rfl, List.append_cancel_left heq⟩

theorem isQuoted_iff (v : Bytes) :
    IsQuoted v ↔ v = Utf8.encode ('\x27' :: (Utf8.decode v).tail.dropLast ++ ['\x27']) ∧
      '\x27' ∉ (Utf8.decode v).tail.dropLast := by
  constructor
  · rintro ⟨cs, rfl, hcs⟩
    rw [Utf8.decode_encode, List.cons_append, List.tail_cons, List.dropLast_concat]
    exact ⟨rfl, hcs⟩
  · exact fun h => ⟨_, h⟩

instance (v : Bytes) : Decidable (IsQuoted v) := decidable_of_iff' _ (isQuoted_iff v)

/-- A value ends at its second quote. -/
theorem delimits_isQuoted : Delimits IsQuoted fun v => v := by
  rintro v w ⟨cs, rfl, hcs⟩ ⟨ds, rfl, hds⟩ rest more heq
  have hquote (cs : List Char) :
      Utf8.encode ('\x27' :: cs ++ ['\x27']) = 0x27 :: Utf8.encode (cs ++ ['\x27']) := rfl
  rw [hquote, hquote, List.cons_append, List.cons_append] at heq
  obtain ⟨rfl, hrest⟩ := delimits_upTo '\x27' hcs hds (List.cons.inj heq).2
  exact ⟨rfl, hrest⟩

namespace Report

variable {digest : Digest}

/-! ## Headers -/

/-- What the header says about `n` tuples. -/
def verdict (n : Nat) : Bytes :=
  if n = 0 then "No" else ("Yes(" ++ (Bytes.ofNat n ++ ")") : Bytes)

/-- A number ends at the bracket behind it. -/
theorem delimits_ofNat : Delimits (fun _ : Nat => True) fun n => Bytes.ofNat n ++ ")" := by
  intro n m _ _ rest more heq
  have hbracket (n : Nat) : ')' ∉ Nat.toDigits 10 n := by
    intro hmem
    have hdigit := Nat.isDigit_of_mem_toDigits (by decide) (by decide) hmem
    exact absurd hdigit (by decide)
  have htext (n : Nat) : Bytes.ofNat n ++ ")" = Utf8.encode (Nat.toDigits 10 n ++ [')']) :=
    (Utf8.encode_append _ _).symm
  simp only [htext] at heq
  obtain ⟨hdigits, hrest⟩ := delimits_upTo ')' (hbracket n) (hbracket m) heq
  refine ⟨?_, hrest⟩
  rw [← Nat.ofDigitChars_ten_toDigits (n := n), hdigits, Nat.ofDigitChars_ten_toDigits]

theorem no_append_ne_yes_append (rest more : Bytes) :
    ("No" : Bytes) ++ rest ≠ ("Yes(" : Bytes) ++ more := by
  intro heq
  have hno : ("No" : Bytes) = [0x4E, 0x6F] := by decide
  have hyes : ("Yes(" : Bytes) = [0x59, 0x65, 0x73, 0x28] := by decide
  rw [hno, hyes] at heq
  exact absurd (List.cons.inj heq).1 (by decide)

theorem delimits_verdict : Delimits (fun _ : Nat => True) verdict := by
  intro n m _ _ rest more heq
  unfold verdict at heq
  split at heq <;> split at heq
  · rename_i hn hm
    exact ⟨hn.trans hm.symm, List.append_cancel_left heq⟩
  · rw [List.append_assoc] at heq
    exact absurd heq (no_append_ne_yes_append _ _)
  · rw [List.append_assoc] at heq
    exact absurd heq.symm (no_append_ne_yes_append _ _)
  · exact delimits_ofNat.prepend "Yes(" trivial trivial heq

/-! ## Bindings -/

/-- One quoted value for every attribute of a schema. -/
def IsQuotedRow (schema : List Bytes) (t : Tuple) : Prop :=
  t.length = schema.length ∧ ∀ v ∈ t, IsQuoted v

instance (schema : List Bytes) (t : Tuple) : Decidable (IsQuotedRow schema t) :=
  inferInstanceAs (Decidable (_ ∧ _))

theorem bindings_cons (name : Bytes) (schema : List Bytes) (v : Bytes) (t : Tuple) :
    bindings (name :: schema) (v :: t) =
      (name ++ "=" ++ v : Bytes) ++
        if schema = [] then [] else (", " ++ bindings schema t : Bytes) := by
  rw [bindings, List.zipIdx_cons, List.map_cons, List.zipIdx_succ, List.map_map, bindings]
  cases schema with
  | nil => rfl
  | cons next schema => rfl

theorem delimits_bindings (schema : List Bytes) :
    Delimits (IsQuotedRow schema) (bindings schema) := by
  induction schema with
  | nil =>
      rintro t u ⟨ht, -⟩ ⟨hu, -⟩ rest more heq
      rw [List.length_eq_zero_iff.mp ht, List.length_eq_zero_iff.mp hu] at heq ⊢
      exact ⟨rfl, heq⟩
  | cons name schema ih =>
      intro t u ht hu rest more heq
      match t, u with
      | v :: t, w :: u =>
        rw [bindings_cons, bindings_cons, List.append_assoc (_ ++ v),
          List.append_assoc (_ ++ w)] at heq
        obtain ⟨rfl, htail⟩ := delimits_isQuoted.prepend _ (ht.2 v List.mem_cons_self)
          (hu.2 w List.mem_cons_self) heq
        have hrow {t : Tuple} (ht : IsQuotedRow (name :: schema) (v :: t)) : IsQuotedRow schema t :=
          ⟨Nat.succ.inj ht.1, fun x hx => ht.2 x (List.mem_cons_of_mem v hx)⟩
        have hrest : t = u ∧ rest = more := by
          split at htail
          · rename_i hschema
            subst hschema
            exact ih (hrow ht) (hrow hu) (by simpa [bindings, Bytes.join] using htail)
          · exact ih.prepend ", " (hrow ht) (hrow hu) htail
        exact ⟨congrArg (v :: ·) hrest.1, hrest.2⟩

/-- A line of bindings. -/
def line (schema : List Bytes) (t : Tuple) : Bytes := "  " ++ bindings schema t ++ "\n"

theorem delimits_line (schema : List Bytes) : Delimits (IsQuotedRow schema) (line schema) :=
  ((delimits_bindings schema).prepend "  ").append "\n"

/-- The lines of bindings of tuples; without attributes there are none. -/
def lines (schema : List Bytes) (ts : List Tuple) : Bytes :=
  if schema = [] then [] else ts.flatMap (line schema)

/-- Lines are told apart once their number is known. -/
theorem delimits_lines (schema : List Bytes) (n : Nat) :
    Delimits (fun ts => (∀ t ∈ ts, IsQuotedRow schema t) ∧ ts.length = n) (lines schema) := by
  by_cases hschema : schema = []
  · -- There are no lines to read, but tuples without values can only be counted.
    subst hschema
    have hreplicate {ts : List Tuple} (h : ∀ t ∈ ts, IsQuotedRow [] t) :
        ts = List.replicate ts.length [] :=
      List.eq_replicate_iff.mpr ⟨rfl, fun t ht => List.length_eq_zero_iff.mp (h t ht).1⟩
    rintro ts us ⟨hts, hn⟩ ⟨hus, hm⟩ rest more heq
    rw [hreplicate hts, hreplicate hus, hn, hm]
    exact ⟨rfl, heq⟩
  · have hlines : lines schema = (·.flatMap (line schema)) := funext fun _ => if_neg hschema
    rw [hlines]
    exact (delimits_line schema).flatMap n

/-! ## Answers -/

/-- What is written of the query `q` when its tuples, in ascending order, are `ts`. -/
def answerText (q : Atom) (ts : List Tuple) : Bytes :=
  (q.render ++ "? " : Bytes) ++ (verdict ts.length ++ "\n") ++ lines q.identifiers ts

theorem delimits_answerText (q : Atom) :
    Delimits (fun ts => ∀ t ∈ ts, IsQuotedRow q.identifiers t) (answerText q) :=
  ((delimits_verdict.append "\n").prepend (q.render ++ "? ")).andThen (f := List.length)
    (fun _ _ => trivial) (delimits_lines q.identifiers)

/-- The tuples of an entry, in order of insertion. -/
def Entry.tuples (e : Entry digest) : List Tuple :=
  match e.relation with
  | none => []
  | some r => r.tuples

/-- The tuples of an entry, in ascending order. -/
def Entry.sorted (e : Entry digest) : List Tuple := e.tuples.mergeSort Tuple.le

/-- However the tuples are put into ascending order, they end up in the same one. -/
theorem Entry.eq_sorted_of_perm {e : Entry digest} {ts : List Tuple} (hperm : ts.Perm e.tuples)
    (hascending : ts.Pairwise fun t u => t.le u = true) : ts = e.sorted := by
  rw [sorted, ← Tuple.mergeSort_eq_of_perm hperm, List.mergeSort_of_pairwise hascending]

theorem header_eq_verdict (e : Entry digest) :
    header false e = e.query.render ++ "? " ++ verdict e.tuples.length ++ "\n" := by
  match e with
  | ⟨_, none⟩ => rfl
  | ⟨query, some r⟩ =>
      dsimp only [header, Entry.tuples, verdict, Text.paint]
      rw [Relation.isEmpty, r.size_eq_length]
      simp only [beq_iff_eq, Bool.false_eq_true, ↓reduceIte, List.append_assoc]

/-- The entry is about the query: its relation, if it has one, has the identifiers
of the query as attributes, and its values are constants. -/
structure Entry.Answers (e : Entry digest) (q : Atom) : Prop where
  query : e.query = q
  wellFormed : ∀ r ∈ e.relation, r.WellFormed
  schema : ∀ r ∈ e.relation, r.schema = q.identifiers
  quoted : ∀ t ∈ e.tuples, ∀ v ∈ t, IsQuoted v

namespace Entry.Answers

variable {e e' : Entry digest} {q : Atom}

theorem nodup_tuples (h : e.Answers q) : e.tuples.Nodup := by
  match e with
  | ⟨_, none⟩ => exact List.nodup_nil
  | ⟨_, some r⟩ => exact (h.wellFormed r rfl).set.nodup

theorem isQuotedRow (h : e.Answers q) : ∀ t ∈ e.sorted, IsQuotedRow q.identifiers t := by
  intro t ht
  have hmem : t ∈ e.tuples := List.mem_mergeSort.mp ht
  refine ⟨?_, h.quoted t hmem⟩
  match e with
  | ⟨_, some r⟩ =>
      rw [← h.schema r rfl]
      exact (h.wellFormed r rfl).arity t hmem

theorem flatten_details (h : e.Answers q) (layout : Table.Layout) :
    (details layout .text e).flatten = lines q.identifiers e.sorted := by
  match e with
  | ⟨_, none⟩ => simp [details, bindingLines, lines, Entry.sorted, Entry.tuples]
  | ⟨_, some r⟩ =>
      rw [← h.schema r rfl]
      dsimp only [details, bindingLines, lines]
      simp only [Relation.arity, List.length_eq_zero_iff]
      split
      · rfl
      · exact List.flatMap_def.symm

theorem flatten_eq (h : e.Answers q) (layout : Table.Layout) :
    (header false e :: details layout .text e).flatten = answerText q e.sorted := by
  rw [List.flatten_cons, header_eq_verdict, h.query, h.flatten_details, answerText, Entry.sorted,
    List.length_mergeSort]
  simp only [List.append_assoc]

/-- Any quoted rows can be inserted into the answer to a query. -/
theorem insertAll {ts : List Tuple} (hts : ∀ t ∈ ts, IsQuotedRow q.identifiers t)
    (name : Bytes) :
    (⟨q, some ((Relation.empty name q.identifiers).insertAll ts)⟩ : Entry digest).Answers q where
  query := rfl
  wellFormed := by
    rintro r ⟨⟩
    exact Relation.wellFormed_insertAll (Relation.wellFormed_empty _ _) fun t ht => (hts t ht).1
  schema := by
    rintro r ⟨⟩
    rfl
  quoted := by
    intro t ht
    have hmem := (Relation.mem_insertAll (Relation.wellFormed_empty _ _) ts t).mp ht
    exact (hts t (hmem.resolve_left nofun)).2

/-- The order in which tuples are shown is determined by which they are. -/
theorem sorted_eq_iff (h : e.Answers q) (h' : e'.Answers q) :
    e.sorted = e'.sorted ↔ ∀ t, t ∈ e.tuples ↔ t ∈ e'.tuples := by
  constructor
  · intro heq t
    have hmem (e : Entry digest) : t ∈ e.sorted ↔ t ∈ e.tuples := List.mem_mergeSort
    rw [← hmem, ← hmem, heq]
  · intro hmem
    exact Tuple.mergeSort_eq_of_perm
      ((List.perm_ext_iff_of_nodup h.nodup_tuples h'.nodup_tuples).mpr hmem)

end Entry.Answers

end Report

/-! ## Reports -/

namespace Report

variable {digest : Digest}

/-- What is written for entries in text style, without colours. -/
def writtenText (layout : Table.Layout) (entries : List (Entry digest)) : Bytes :=
  ((write Sink.write layout false .text entries).run.run .reliable).2.written

theorem writtenText_cons (layout : Table.Layout) (e : Entry digest)
    (entries : List (Entry digest)) :
    writtenText layout (e :: entries) =
      (header false e :: details layout .text e).flatten ++ writtenText layout entries := by
  simp [writtenText, run_write_reliable, Sink.written, pieces]

/-- The report says which tuples answer each query, and nothing else about the answers. -/
theorem writtenText_eq_iff (layout : Table.Layout) {queries : List Atom}
    {entries others : List (Entry digest)}
    (h : List.Forall₂ Entry.Answers entries queries)
    (h' : List.Forall₂ Entry.Answers others queries) :
    writtenText layout entries = writtenText layout others ↔
      List.Forall₂ (fun e e' => ∀ t, t ∈ e.tuples ↔ t ∈ e'.tuples) entries others := by
  induction h generalizing others with
  | nil =>
      cases h'
      simp
  | @cons e q entries queries he _ ih =>
      cases h' with
      | @cons e' _ others _ he' hothers =>
          rw [writtenText_cons, writtenText_cons, he.flatten_eq, he'.flatten_eq,
            List.forall₂_cons, ← he.sorted_eq_iff he', ← ih hothers]
          constructor
          · exact fun heq => delimits_answerText q he.isQuotedRow he'.isQuotedRow heq
          · rintro ⟨hsorted, hrest⟩
            rw [hsorted, hrest]

/-- Values that look like more bindings, more lines and another header. -/
theorem writtenText_eq_iff_lookalikes :
    let p : Atom := ⟨"p", [.identifier "X", .identifier "Y", .identifier "X"]⟩
    let r : Atom := ⟨"r", []⟩
    let entry (q : Atom) (ts : List Tuple) : Entry Store.zeroDigest :=
      ⟨q, some ((Relation.empty "" q.identifiers).insertAll ts)⟩
    let bindings : Tuple := ["', Y='", "''"]
    let header : Tuple := ["'\n  X='", "'\nr()? Yes(1)\n'"]
    let other : Tuple := ["'\n  X='", "'\nr()? No\n'"]
    let entries := [entry p [bindings, header], entry r [[]], ⟨p, none⟩]
    let reordered := [entry p [header, bindings, header], entry r [[]], entry p []]
    let different := [entry p [bindings, other], entry r [[]], entry p []]
    let answers (entries : List (Entry Store.zeroDigest)) :=
      List.Forall₂ Entry.Answers entries [p, r, p]
    (answers entries ∧ answers reordered ∧ answers different) ∧
      writtenText Table.markdown entries = writtenText Table.markdown reordered ∧
      writtenText Table.markdown entries ≠ writtenText Table.markdown different := by
  intro p r entry bindings header other entries reordered different answers
  have hentry (q : Atom) {ts : List Tuple} (hts : ∀ t ∈ ts, IsQuotedRow q.identifiers t) :
      (entry q ts).Answers q := .insertAll hts ""
  have hnone : Entry.Answers (⟨p, none⟩ : Entry Store.zeroDigest) p :=
    ⟨rfl, nofun, nofun, nofun⟩
  have hr : (entry r [[]]).Answers r := hentry r (by decide)
  have hentries : answers entries :=
    .cons (hentry p (by decide +kernel)) (.cons hr (.cons hnone .nil))
  have hreordered : answers reordered :=
    .cons (hentry p (by decide +kernel)) (.cons hr (.cons (hentry p nofun) .nil))
  have hdifferent : answers different :=
    .cons (hentry p (by decide +kernel)) (.cons hr (.cons (hentry p nofun) .nil))
  have hmem (q : Atom) (ts : List Tuple) (t : Tuple) : t ∈ (entry q ts).tuples ↔ t ∈ ts :=
    (Relation.mem_insertAll (Relation.wellFormed_empty _ _) ts t).trans (or_iff_right nofun)
  refine ⟨⟨hentries, hreordered, hdifferent⟩, ?_, fun heq => ?_⟩
  · have hsame : ∀ t, t ∈ [bindings, header] ↔ t ∈ [header, bindings, header] := by
      intro t
      simp only [List.mem_cons, List.not_mem_nil, or_false]
      tauto
    refine (writtenText_eq_iff Table.markdown hentries hreordered).mpr (.cons (fun t => ?_) (.cons ?_ ?_))
    · rw [hmem, hmem, hsame]
    · exact fun _ => Iff.rfl
    · exact .cons (fun _ => Iff.rfl) .nil
  · have hall := (writtenText_eq_iff Table.markdown hentries hdifferent).mp heq
    have hsame := (List.forall₂_cons.mp hall).1 header
    rw [hmem, hmem] at hsame
    exact absurd (hsame.mp (by decide)) (by decide +kernel)

end Report

end LeastModel
