import LeastModel.Proofs.StoreRoundTrip
import Mathlib.Data.List.Forall2
import Mathlib.Data.List.TakeWhile

/-!
# Scans of any store

A store may hold anything under the keys of answers. If its answers can be loaded
nevertheless, then every entry is a header or a tuple, and each header gives an
answer of its own, which has the tuples that stand between this header and the
next (`loadFrom_gathers`). Listing meets the same headers (`list_of_load`).

Since entries stand in the order of their keys, a tuple comes after the header of
its own position and before that of any later one. So it can only be put into an
answer of another position when its own position has no header; that it has one is
not looked at.

## Main statements

`Store.list_of_load`: where the answers can be loaded, their queries are listed.

`Store.load_separates`: loading keeps the tuples of different positions apart
exactly when every position with a tuple has a header or loading finds the entries
corrupt.
-/

namespace LeastModel.Store

variable {digest : Digest}

/-! ## Headers and what follows them -/

/-- Whether an entry has the key of a header. -/
def isHeader (e : Bytes × Bytes) : Bool :=
  match decodeKey e.1 with
  | .ok (_, tag) => tag == headerTag
  | .error _ => false

theorem isHeader_iff {e : Bytes × Bytes} :
    isHeader e = true ↔ ∃ n, decodeKey e.1 = .ok (n, headerTag) := by
  rw [isHeader]
  cases hkey : decodeKey e.1 with
  | error fault => simp
  | ok key =>
      obtain ⟨n, tag⟩ := key
      simp

theorem isHeader_of_decodeKey {e : Bytes × Bytes} {n : UInt32} {tag : UInt8}
    (h : decodeKey e.1 = .ok (n, tag)) : isHeader e = (tag == headerTag) := by
  rw [isHeader, h]

/-- Every header, with the entries that follow it up to the next header. -/
def blocks : List (Bytes × Bytes) → List ((Bytes × Bytes) × List (Bytes × Bytes))
  | [] => []
  | e :: rest =>
    if isHeader e then (e, rest.takeWhile (!isHeader ·)) :: blocks rest else blocks rest

theorem map_fst_blocks (entries : List (Bytes × Bytes)) :
    (blocks entries).map (·.1) = entries.filter isHeader := by
  induction entries with
  | nil => rfl
  | cons e rest ih =>
      rw [blocks, List.filter_cons]
      split
      · rw [List.map_cons, ih]
      · exact ih

/-- A block is a stretch of the entries that starts with its header. -/
theorem exists_append_of_mem_blocks {entries : List (Bytes × Bytes)}
    {b : (Bytes × Bytes) × List (Bytes × Bytes)} (hb : b ∈ blocks entries) :
    isHeader b.1 = true ∧ (∀ e ∈ b.2, isHeader e = false) ∧
      ∃ before after, entries = before ++ b.1 :: (b.2 ++ after) := by
  induction entries with
  | nil => simp [blocks] at hb
  | cons e rest ih =>
      rw [blocks] at hb
      split at hb
      · rename_i he
        rcases List.mem_cons.mp hb with rfl | hb
        · refine ⟨he, fun f hf => ?_, [], rest.dropWhile (!isHeader ·), ?_⟩
          · simpa using List.mem_takeWhile_imp hf
          · rw [List.takeWhile_append_dropWhile]
            rfl
        · obtain ⟨hheader, hothers, before, after, heq⟩ := ih hb
          exact ⟨hheader, hothers, e :: before, after, congrArg (e :: ·) heq⟩
      · obtain ⟨hheader, hothers, before, after, heq⟩ := ih hb
        exact ⟨hheader, hothers, e :: before, after, congrArg (e :: ·) heq⟩

/-! ## What is loaded -/

/-- The first entry of a list that is loaded is a header, which begins an answer,
or a tuple, which the latest answer takes. -/
theorem loadFrom_cons_cases {e : Bytes × Bytes} {rest : List (Bytes × Bytes)}
    {read answers : List (Answer digest)} (h : loadFrom (e :: rest) read = .ok answers) :
    (∃ n header, decodeKey e.1 = .ok (n, headerTag) ∧ decodeHeader e.2 = .ok header ∧
      loadFrom rest (⟨header.query, .empty header.name header.schema⟩ :: read) = .ok answers) ∨
    ∃ n t a older, decodeKey e.1 = .ok (n, tupleTag) ∧ decodeTuple e.2 = .ok t ∧
      read = a :: older ∧ t.length = a.relation.arity ∧
      loadFrom rest (⟨a.query, a.relation.insertAll [t]⟩ :: older) = .ok answers := by
  obtain ⟨key, value⟩ := e
  rw [loadFrom.eq_def] at h
  obtain ⟨⟨n, tag⟩, hkey, h⟩ := bind_eq_ok_iff.mp h
  dsimp only at h
  split at h
  · rename_i htag
    obtain ⟨header, hvalue, h⟩ := bind_eq_ok_iff.mp h
    exact .inl ⟨n, header, htag ▸ hkey, hvalue, h⟩
  · split at h
    · rename_i htag
      cases read with
      | nil => cases h
      | cons a older =>
          obtain ⟨t, hvalue, h⟩ := bind_eq_ok_iff.mp h
          obtain ⟨⟨relation, new⟩, hadd, h⟩ := bind_eq_ok_iff.mp h
          obtain ⟨hlength, rfl, -⟩ := Relation.add_eq_ok_iff.mp (mapError_eq_ok_iff.mp hadd)
          exact .inr ⟨n, t, a, older, htag ▸ hkey, hvalue, rfl, hlength, h⟩
    · cases h

/-- An answer has taken the tuples of entries, and nothing else has become of it. -/
structure Gathers (a : Answer digest) (members : List (Bytes × Bytes)) (b : Answer digest) :
    Prop where
  header : headerOf b = headerOf a
  keys : ∀ e ∈ members, ∃ n, decodeKey e.1 = .ok (n, tupleTag)
  tuples : ∀ t, t ∈ b.relation.tuples ↔
    t ∈ a.relation.tuples ∨ ∃ e ∈ members, decodeTuple e.2 = .ok t

theorem Gathers.nil (a : Answer digest) : Gathers a [] a := ⟨rfl, by simp, by simp⟩

theorem Gathers.cons {a b : Answer digest} (hwell : a.relation.WellFormed) {e : Bytes × Bytes}
    {n : UInt32} (hkey : decodeKey e.1 = .ok (n, tupleTag)) {t : Tuple}
    (hvalue : decodeTuple e.2 = .ok t) {members : List (Bytes × Bytes)}
    (h : Gathers ⟨a.query, a.relation.insertAll [t]⟩ members b) : Gathers a (e :: members) b where
  header := h.header
  keys := List.forall_mem_cons.mpr ⟨⟨n, hkey⟩, h.keys⟩
  tuples u := by
    have hfirst : decodeTuple e.2 = .ok u ↔ u = t := by
      rw [hvalue, Except.ok.injEq, eq_comm]
    simp [h.tuples, Relation.mem_insertAll hwell, hfirst, or_assoc]

/-- An answer that a header begins and that takes the tuples of the entries after it. -/
def ReadFrom (b : (Bytes × Bytes) × List (Bytes × Bytes)) (a : Answer digest) : Prop :=
  ∃ header, decodeHeader b.1.2 = .ok header ∧
    Gathers ⟨header.query, .empty header.name header.schema⟩ b.2 a

/-- The latest answer takes the tuples up to the next header, and each header that is
still to come gives an answer. -/
theorem loadFrom_gathers {entries : List (Bytes × Bytes)} {a : Answer digest}
    (hwell : a.relation.WellFormed) {older answers : List (Answer digest)}
    (h : loadFrom entries (a :: older) = .ok answers) :
    ∃ b news, Gathers a (entries.takeWhile (!isHeader ·)) b ∧
      List.Forall₂ ReadFrom (blocks entries) news ∧ answers = older.reverse ++ b :: news := by
  induction entries generalizing a older with
  | nil =>
      rw [loadFrom, List.reverse_cons] at h
      exact ⟨a, [], .nil a, .nil, (Except.ok.inj h).symm⟩
  | cons e rest ih =>
      rcases loadFrom_cons_cases h with
        ⟨n, header, hkey, hvalue, h⟩ | ⟨n, t, _, _, hkey, hvalue, heq, hlength, h⟩
      · have he : isHeader e = true := by rw [isHeader_of_decodeKey hkey]; rfl
        obtain ⟨b, news, hb, hnews, rfl⟩ := ih (Relation.wellFormed_empty _ _) h
        refine ⟨a, b :: news, ?_, ?_, ?_⟩
        · rw [List.takeWhile_cons_of_neg (by simp [he])]
          exact .nil a
        · rw [blocks, if_pos he]
          exact .cons ⟨header, hvalue, hb⟩ hnews
        · rw [List.reverse_cons, List.append_assoc]
          rfl
      · cases heq
        have he : isHeader e = false := by rw [isHeader_of_decodeKey hkey]; rfl
        have hwell' : (a.relation.insertAll [t]).WellFormed :=
          Relation.wellFormed_insertAll hwell (List.forall_mem_singleton.mpr hlength)
        obtain ⟨b, news, hb, hnews, rfl⟩ := ih hwell' h
        refine ⟨b, news, ?_, ?_, rfl⟩
        · rw [List.takeWhile_cons_of_pos (by simp [he])]
          exact hb.cons hwell hkey hvalue
        · rw [blocks, if_neg (by simp [he])]
          exact hnews

/-- Every header gives an answer, which has the tuples between this header and the next. -/
theorem load_readFrom {s : Store} {answers : List (Answer digest)} (h : s.load = .ok answers) :
    List.Forall₂ ReadFrom (blocks s.answerEntries) answers := by
  rw [load] at h
  cases hentries : s.answerEntries with
  | nil =>
      rw [hentries] at h
      cases h
      exact .nil
  | cons e rest =>
      rw [hentries] at h
      rcases loadFrom_cons_cases h with ⟨n, header, hkey, hvalue, h⟩ | ⟨_, _, _, _, _, _, heq, _⟩
      · have he : isHeader e = true := by rw [isHeader_of_decodeKey hkey]; rfl
        obtain ⟨b, news, hb, hnews, rfl⟩ := loadFrom_gathers (Relation.wellFormed_empty _ _) h
        rw [blocks, if_pos he]
        exact .cons ⟨header, hvalue, hb⟩ hnews
      · cases heq

/-! ## Listing what can be loaded -/

theorem listFrom_of_loadFrom {entries : List (Bytes × Bytes)} {read answers : List (Answer digest)}
    (h : loadFrom entries read = .ok answers) :
    ∃ queries, listFrom entries = .ok queries ∧
      answers.map (·.query.render ++ ("?" : Bytes)) =
        read.reverse.map (·.query.render ++ ("?" : Bytes)) ++ queries := by
  induction entries generalizing read with
  | nil =>
      cases h
      exact ⟨[], rfl, (List.append_nil _).symm⟩
  | cons e rest ih =>
      obtain ⟨key, value⟩ := e
      rw [listFrom]
      rcases loadFrom_cons_cases h with
        ⟨n, header, hkey, hvalue, h⟩ | ⟨n, t, a, older, hkey, -, rfl, -, h⟩
      · obtain ⟨queries, hqueries, hanswers⟩ := ih h
        refine ⟨(header.query.render ++ "?") :: queries, ?_, ?_⟩
        · rw [hkey]
          change (do
            let h ← decodeHeader value
            return (h.query.render ++ "?") :: (← listFrom rest)) = _
          rw [hvalue, hqueries]
          rfl
        · rw [hanswers]
          simp
      · obtain ⟨queries, hqueries, hanswers⟩ := ih h
        refine ⟨queries, ?_, ?_⟩
        · rw [hkey]
          exact hqueries
        · rw [hanswers]
          simp

/-- Where the answers can be loaded, their queries are listed in the same order. -/
theorem list_of_load {s : Store} {answers : List (Answer digest)} (h : s.load = .ok answers) :
    s.list = .ok (answers.map (·.query.render ++ "?")) := by
  obtain ⟨queries, hqueries, hanswers⟩ := listFrom_of_loadFrom h
  rw [list, hqueries, hanswers]
  rfl

/-- The header of an answer to a query with one variable. -/
def unaryHeader : Header := ⟨⟨"p", [.identifier "x"]⟩, "p", ["x"]⟩

/-- A tuple that fits the header. -/
def unaryTuple : Tuple := ["a"]

/-- Two headers of one position, the second with a longer key and a longer value than saving
gives it, and a tuple of a position without a header. -/
def damagedStore : Store :=
  ((empty.put (headerKey 0) (encodeHeader unaryHeader)).put
    (headerKey 0 ++ [0]) (encodeHeader unaryHeader ++ [0xFF])).put
    (tupleKey zeroDigest 1 unaryTuple) (encodeTuple unaryTuple)

theorem list_of_load_damaged :
    ∃ answers : List (Answer zeroDigest), damagedStore.load = .ok answers ∧ answers.length = 2 ∧
      damagedStore.list = .ok (answers.map (·.query.render ++ "?")) := by
  have hcount : (damagedStore.load : Except StoreFault (List (Answer zeroDigest))).toOption.map
      (·.length) = some 2 := by decide +kernel
  obtain ⟨answers, hload, hlength⟩ := exists_ok_of_map_toOption hcount
  exact ⟨answers, hload, hlength, list_of_load hload⟩

/-! ## Positions in the order of keys -/

theorem answerEntries_pairwise (s : Store) : s.answerEntries.Pairwise Precedes :=
  (toList_pairwise s).filter _

section

variable {s : Store} {e f : Bytes × Bytes} {n m : UInt32}

theorem exists_answerKey_of_mem (he : e ∈ s.answerEntries) {tag : UInt8}
    (hn : decodeKey e.1 = .ok (n, tag)) : ∃ bs, e.1 = answerKey n ++ tag :: bs :=
  exists_answerKey_of_decodeKey (List.mem_filter.mp he).2 hn

/-- Positions ascend with the keys. -/
theorem position_le (he : e ∈ s.answerEntries) (hf : f ∈ s.answerEntries) (h : Precedes e f)
    {tag tag' : UInt8} (hn : decodeKey e.1 = .ok (n, tag)) (hm : decodeKey f.1 = .ok (m, tag')) :
    n ≤ m := by
  obtain ⟨bs, hbs⟩ := exists_answerKey_of_mem he hn
  obtain ⟨cs, hcs⟩ := exists_answerKey_of_mem hf hm
  refine UInt32.not_lt.mp fun hlt => h.asymm ?_
  rw [Precedes, hbs, hcs]
  exact compare_answerKey hlt _ _

/-- The headers of a position stand before its tuples. -/
theorem precedes_of_header (he : e ∈ s.answerEntries) (hf : f ∈ s.answerEntries)
    (hn : decodeKey e.1 = .ok (n, headerTag)) (hm : decodeKey f.1 = .ok (n, tupleTag)) :
    Precedes e f := by
  obtain ⟨bs, hbs⟩ := exists_answerKey_of_mem he hn
  obtain ⟨cs, hcs⟩ := exists_answerKey_of_mem hf hm
  rw [Precedes, hbs, hcs, Bytes.compare_append_left]
  rfl

end

/-- Some header has the position. -/
def HasHeader (s : Store) (n : UInt32) : Prop :=
  ∃ e ∈ s.answerEntries, decodeKey e.1 = .ok (n, headerTag)

/-- A tuple that follows a header has no smaller position, and no other one that has a header. -/
theorem position_of_mem_block {s : Store} {b : (Bytes × Bytes) × List (Bytes × Bytes)}
    (hb : b ∈ blocks s.answerEntries) {n : UInt32} (hn : decodeKey b.1.1 = .ok (n, headerTag))
    {e : Bytes × Bytes} (he : e ∈ b.2) {m : UInt32} (hm : decodeKey e.1 = .ok (m, tupleTag)) :
    e ∈ s.answerEntries ∧ n ≤ m ∧ (s.HasHeader m → m = n) := by
  obtain ⟨-, hothers, before, after, heq⟩ := exists_append_of_mem_blocks hb
  have hsorted := s.answerEntries_pairwise
  have hfirst : b.1 ∈ s.answerEntries := by simp [heq]
  have hmem : e ∈ s.answerEntries := by simp [heq, he]
  rw [heq] at hsorted
  obtain ⟨-, hsorted, hbefore⟩ := List.pairwise_append.mp hsorted
  obtain ⟨hblock, hsorted⟩ := List.pairwise_cons.mp hsorted
  obtain ⟨-, -, hafter⟩ := List.pairwise_append.mp hsorted
  have hle : n ≤ m :=
    position_le hfirst hmem (hblock e (List.mem_append_left after he)) hn hm
  refine ⟨hmem, hle, ?_⟩
  rintro ⟨f, hf, hheader⟩
  have hprecedes : Precedes f e := precedes_of_header hf hmem hheader hm
  have hisHeader : isHeader f = true := isHeader_iff.mpr ⟨m, hheader⟩
  -- The header stands before the tuple, so it is the one that the tuple follows or an earlier one.
  have hnot_after : f ∉ after := fun hf' => hprecedes.asymm (hafter e he f hf')
  have hnot_block : f ∉ b.2 := fun hf' => by simp [hothers f hf'] at hisHeader
  have hplace : f ∈ before ∨ f = b.1 := by
    rw [heq] at hf
    simpa [hnot_after, hnot_block] using hf
  rcases hplace with hf' | rfl
  · exact UInt32.le_antisymm (position_le hf hfirst (hbefore f hf' b.1 (by simp)) hheader hn) hle
  · rw [hheader] at hn
    cases hn
    rfl

/-! ## Whose tuples an answer has -/

/-- An answer that is loaded for a header: each of its tuples comes from an entry whose position
is not smaller, and is that of the header itself if it has a header at all. -/
def Takes (s : Store) (e : Bytes × Bytes) (a : Answer digest) : Prop :=
  ∃ n, decodeKey e.1 = .ok (n, headerTag) ∧ decodeHeader e.2 = .ok (headerOf a) ∧
    ∀ t ∈ a.relation.tuples, ∃ f ∈ s.answerEntries, ∃ m, decodeKey f.1 = .ok (m, tupleTag) ∧
      decodeTuple f.2 = .ok t ∧ n ≤ m ∧ (s.HasHeader m → m = n)

/-- An answer that is loaded for a header: all its tuples come from entries with the position of
the header. -/
def Owns (s : Store) (e : Bytes × Bytes) (a : Answer digest) : Prop :=
  ∃ n, decodeKey e.1 = .ok (n, headerTag) ∧ decodeHeader e.2 = .ok (headerOf a) ∧
    ∀ t ∈ a.relation.tuples, ∃ f ∈ s.answerEntries, decodeKey f.1 = .ok (n, tupleTag) ∧
      decodeTuple f.2 = .ok t

theorem takes_of_readFrom {s : Store} {b : (Bytes × Bytes) × List (Bytes × Bytes)}
    (hb : b ∈ blocks s.answerEntries) {a : Answer digest} (h : ReadFrom b a) : s.Takes b.1 a := by
  obtain ⟨header, hvalue, hgathers⟩ := h
  obtain ⟨n, hn⟩ := isHeader_iff.mp (exists_append_of_mem_blocks hb).1
  refine ⟨n, hn, ?_, fun t ht => ?_⟩
  · rw [hvalue, hgathers.header]
    rfl
  · obtain ⟨e, he, hvalue⟩ := ((hgathers.tuples t).mp ht).resolve_left (nomatch ·)
    obtain ⟨m, hm⟩ := hgathers.keys e he
    obtain ⟨hmem, hle, heq⟩ := position_of_mem_block hb hn he hm
    exact ⟨e, hmem, m, hm, hvalue, hle, heq⟩

theorem load_takes {s : Store} {answers : List (Answer digest)} (h : s.load = .ok answers) :
    List.Forall₂ s.Takes (s.answerEntries.filter isHeader) answers := by
  rw [← map_fst_blocks, List.forall₂_map_left_iff]
  have hread := (List.forall₂_and_left _ _).mpr ⟨fun b hb => hb, load_readFrom h⟩
  exact hread.imp fun b a ⟨hb, hba⟩ => takes_of_readFrom hb hba

/-! ## Tuples without a header -/

/-- Loading fails and says that the stored bytes make no sense. -/
def LoadsCorrupt (digest : Digest) (s : Store) : Prop :=
  ∃ fault, (s.load : Except StoreFault (List (Answer digest))) = .error fault ∧
    fault.isCorrupt = true

theorem isCorrupt_of_decodeKey {key : Bytes} {fault : StoreFault}
    (h : decodeKey key = .error fault) : fault.isCorrupt = true := by
  rw [decodeKey] at h
  split at h
  · split at h
    · cases h
    · cases h
      rfl
  · cases h
    rfl

/-- A scan must begin with a header. -/
theorem exists_fault_of_loadFrom {e : Bytes × Bytes} (he : isHeader e = false)
    (rest : List (Bytes × Bytes)) :
    ∃ fault, (loadFrom (e :: rest) [] : Except StoreFault (List (Answer digest))) = .error fault ∧
      fault.isCorrupt = true := by
  obtain ⟨key, value⟩ := e
  rw [loadFrom.eq_def]
  dsimp only
  cases hkey : decodeKey key with
  | error fault => exact ⟨fault, rfl, isCorrupt_of_decodeKey hkey⟩
  | ok position =>
      obtain ⟨n, tag⟩ := position
      have hheader : tag ≠ headerTag := by
        rw [isHeader_of_decodeKey hkey] at he
        simpa using he
      simp only [bind, Except.bind, if_neg hheader]
      split
      · exact ⟨_, rfl, rfl⟩
      · exact ⟨_, rfl, rfl⟩

theorem loadsCorrupt_of_early {s : Store} {e : Bytes × Bytes} (he : e ∈ s.answerEntries)
    (hearly : ∀ f ∈ s.answerEntries, isHeader f = true → Precedes e f) :
    s.LoadsCorrupt digest := by
  rw [LoadsCorrupt, load]
  have hsorted := s.answerEntries_pairwise
  cases hentries : s.answerEntries with
  | nil => simp [hentries] at he
  | cons first rest =>
      refine exists_fault_of_loadFrom ?_ rest
      rw [hentries] at he hearly hsorted
      by_contra hfirst
      have hprecedes := hearly first (by simp) (by simpa using hfirst)
      rcases List.mem_cons.mp he with rfl | he
      · exact hprecedes.ne rfl
      · exact hprecedes.asymm ((List.pairwise_cons.mp hsorted).1 e he)

/-- The tuples of different positions are kept apart: an answer has only tuples of the position of
its header, and a tuple whose position has no header is found to be corrupt. -/
structure KeepsApart (digest : Digest) (s : Store) : Prop where
  own : ∀ answers : List (Answer digest), s.load = .ok answers →
    List.Forall₂ s.Owns (s.answerEntries.filter isHeader) answers
  orphan : ∀ e ∈ s.answerEntries, ∀ n, decodeKey e.1 = .ok (n, tupleTag) → ¬s.HasHeader n →
    s.LoadsCorrupt digest

/-- Every position with a tuple has a header. -/
def Headed (s : Store) : Prop :=
  ∀ e ∈ s.answerEntries, ∀ n, decodeKey e.1 = .ok (n, tupleTag) → s.HasHeader n

theorem Takes.owns {s : Store} (hs : s.Headed) {e : Bytes × Bytes} {a : Answer digest}
    (h : s.Takes e a) : s.Owns e a := by
  obtain ⟨n, hkey, hvalue, htuples⟩ := h
  refine ⟨n, hkey, hvalue, fun t ht => ?_⟩
  obtain ⟨f, hf, m, hm, ht, -, hown⟩ := htuples t ht
  obtain rfl := hown (hs f hf m hm)
  exact ⟨f, hf, hm, ht⟩

theorem keepsApart_iff {s : Store} : KeepsApart digest s ↔ s.Headed ∨ s.LoadsCorrupt digest := by
  constructor
  · intro h
    by_cases hs : s.Headed
    · exact .inl hs
    · simp only [Headed, not_forall] at hs
      obtain ⟨e, he, n, hn, hnone⟩ := hs
      exact .inr (h.orphan e he n hn hnone)
  · rintro (hs | ⟨fault, hload, hfault⟩)
    · exact ⟨fun answers hload => (load_takes hload).imp fun _ _ htakes => htakes.owns hs,
        fun e he n hn hnone => absurd (hs e he n hn) hnone⟩
    · refine ⟨fun answers hanswers => ?_, fun _ _ _ _ _ => ⟨fault, hload, hfault⟩⟩
      exact nomatch hload.symm.trans hanswers

/-- Whatever is loaded, the tuples of an answer come from entries that follow its header, and
from its own position if theirs has a header. So loading keeps positions apart
exactly when all positions with tuples have headers or the entries are found to be corrupt. They
are when a tuple stands before all headers; of other tuples without a header nothing is said. -/
theorem load_separates (digest : Digest) (s : Store) :
    (∀ answers : List (Answer digest), s.load = .ok answers →
      List.Forall₂ s.Takes (s.answerEntries.filter isHeader) answers) ∧
    (KeepsApart digest s ↔ s.Headed ∨ s.LoadsCorrupt digest) ∧
    ∀ e ∈ s.answerEntries, (∃ n, decodeKey e.1 = .ok (n, tupleTag)) →
      (∀ f ∈ s.answerEntries, isHeader f = true → Precedes e f) → s.LoadsCorrupt digest :=
  ⟨fun _ => load_takes, keepsApart_iff, fun _ he _ hearly => loadsCorrupt_of_early he hearly⟩

/-- A header at the first position, and a tuple at the second, which has no header. -/
def strayStore : Store :=
  (empty.put (headerKey 0) (encodeHeader unaryHeader)).put
    (tupleKey zeroDigest 1 unaryTuple) (encodeTuple unaryTuple)

/-- The tuple is put into the answer of the position before. -/
theorem strayStore_not_keepsApart :
    (strayStore.load : Except StoreFault (List (Answer zeroDigest))).toOption.map
        (·.map fun a => (a.query, a.relation.tuples)) = some [(unaryHeader.query, [unaryTuple])] ∧
    ¬KeepsApart zeroDigest strayStore := by
  have hloaded : (strayStore.load : Except StoreFault (List (Answer zeroDigest))).toOption.map
      (·.map fun a => (a.query, a.relation.tuples)) = some [(unaryHeader.query, [unaryTuple])] := by
    decide +kernel
  have hstray : (tupleKey zeroDigest 1 unaryTuple, encodeTuple unaryTuple) ∈
      strayStore.answerEntries := by decide +kernel
  have hnone : ¬strayStore.HasHeader 1 := by
    have hkeys : ∀ e ∈ strayStore.answerEntries, decodeKey e.1 ≠ .ok (1, headerTag) := by
      decide +kernel
    rintro ⟨e, he, hheader⟩
    exact hkeys e he hheader
  refine ⟨hloaded, fun hkept => ?_⟩
  obtain ⟨fault, hfault, -⟩ := hkept.orphan _ hstray 1 (decodeKey_tupleKey _ _ _) hnone
  rw [hfault] at hloaded
  exact nomatch hloaded

end LeastModel.Store
