import LeastModel.Proofs.StoreKeys
import Mathlib.Data.List.Sort

/-!
# What a store holds

A store is described by looking up keys (`Store.get?`). Its listing ascends
strictly by key, so it is determined by what it holds; after saving, the entries
of answers are those of the saved answers in the order of their keys
(`answerEntries_save`), and all other keys keep their values.
-/

namespace LeastModel.Store

variable {digest : Digest}

/-! ## Lookups -/

/-- The value under a key. -/
def get? (s : Store) (key : Bytes) : Option Bytes := s.entries[key]?

theorem get?_put (s : Store) (key value : Bytes) (other : Bytes) :
    (s.put key value).get? other = if key = other then some value else s.get? other := by
  rw [get?, put, Std.TreeMap.getElem?_insert, get?]
  simp only [Std.compare_eq_iff_eq]

theorem get?_clear (s : Store) (key : Bytes) :
    s.clear.get? key = if isAnswerKey key then none else s.get? key := by
  rw [get?, clear, Std.TreeMap.getElem?_filter', get?]
  by_cases hkey : isAnswerKey key = true
  · simp [hkey]
  · simp only [hkey, Bool.not_false]
    cases s.entries[key]? with
    | none => rfl
    | some value => rfl

theorem mem_toList {s : Store} {key value : Bytes} :
    (key, value) ∈ s.toList ↔ s.get? key = some value :=
  Std.TreeMap.mem_toList_iff_getElem?_eq_some

/-! ## Entries in the order of their keys -/

/-- The first entry has the smaller key. -/
def Precedes (e f : Bytes × Bytes) : Prop := compare e.1 f.1 = .lt

theorem Precedes.ne {e f : Bytes × Bytes} (h : Precedes e f) : e.1 ≠ f.1 := by
  intro heq
  have hself : compare e.1 f.1 = .eq := Std.compare_eq_iff_eq.mpr heq
  exact nomatch h.symm.trans hself

theorem Precedes.asymm {e f : Bytes × Bytes} (h : Precedes e f) : ¬Precedes f e := by
  intro hback
  have hgt : compare e.1 f.1 = .gt := Std.OrientedCmp.gt_of_lt hback
  exact nomatch h.symm.trans hgt

theorem toList_pairwise (s : Store) : s.toList.Pairwise Precedes :=
  Std.TreeMap.ordered_keys_toList

/-- Entries in the order of their keys are determined by which they are. -/
theorem eq_of_pairwise
    {entries others : List (Bytes × Bytes)} (hentries : entries.Pairwise Precedes)
    (hothers : others.Pairwise Precedes) (hmem : ∀ e, e ∈ entries ↔ e ∈ others) :
    entries = others := by
  have hnodup : ∀ {es : List (Bytes × Bytes)}, es.Pairwise Precedes → es.Nodup := fun hes =>
    hes.imp fun h heq => h.ne (congrArg Prod.fst heq)
  have hperm := (List.perm_ext_iff_of_nodup (hnodup hentries) (hnodup hothers)).mpr hmem
  exact hperm.eq_of_pairwise (fun _ _ _ _ h hback => absurd hback h.asymm) hentries hothers

/-! ## Putting entries -/

/-- The store with entries put one after another. -/
def putEntries (s : Store) (entries : List (Bytes × Bytes)) : Store :=
  entries.foldl (fun s (key, value) => s.put key value) s

theorem get?_putEntries_of_notMem
    {entries : List (Bytes × Bytes)} {key : Bytes} (hkey : ∀ e ∈ entries, e.1 ≠ key) (s : Store) :
    (s.putEntries entries).get? key = s.get? key := by
  induction entries generalizing s with
  | nil => rfl
  | cons e entries ih =>
      obtain ⟨he, hentries⟩ := List.forall_mem_cons.mp hkey
      have hrest := ih hentries (s.put e.1 e.2)
      rwa [get?_put, if_neg he] at hrest

theorem get?_putEntries_of_mem
    {entries : List (Bytes × Bytes)} (hkeys : entries.Pairwise fun e f => e.1 ≠ f.1)
    {key value : Bytes} (hmem : (key, value) ∈ entries) (s : Store) :
    (s.putEntries entries).get? key = some value := by
  induction entries generalizing s with
  | nil => simp at hmem
  | cons e entries ih =>
      obtain ⟨he, hrest⟩ := List.pairwise_cons.mp hkeys
      rcases List.mem_cons.mp hmem with rfl | hmem
      · have hput := get?_putEntries_of_notMem (fun f hf => (he f hf).symm) (s.put key value)
        rwa [get?_put, if_pos rfl] at hput
      · exact ih hrest hmem (s.put e.1 e.2)

/-! ## The entries of answers -/

/-- The entries of answers from a position on. -/
def entriesFrom (hash : Digest) : (position : Nat) → List (Answer digest) → List (Bytes × Bytes)
  | _, [] => []
  | position, a :: answers =>
    entriesOf hash (UInt32.ofNat position) a ++ entriesFrom hash (position + 1) answers

/-- Without a limit nothing is refused. -/
theorem batch_none (hash : Digest) (position : Nat) (answers : List (Answer digest)) :
    batch hash none position answers = .ok (entriesFrom hash position answers) := by
  induction answers generalizing position with
  | nil => rfl
  | cons a answers ih =>
      have hsizes : checkSizes none a.query (entriesOf hash (UInt32.ofNat position) a) = .ok () :=
        rfl
      rw [batch, hsizes, ih]
      rfl

/-- The tuples of an answer in the order of their keys. -/
def arranged (hash : Digest) (n : UInt32) (a : Answer digest) : List Tuple :=
  a.relation.tuples.mergeSort fun t u =>
    (compare (tupleKey hash n t) (tupleKey hash n u)).isLE

/-- The entries of an answer in the order of their keys. -/
def scanOf (hash : Digest) (n : UInt32) (a : Answer digest) : List (Bytes × Bytes) :=
  (headerKey n, encodeHeader (headerOf a)) ::
    (arranged hash n a).map fun t => (tupleKey hash n t, encodeTuple t)

/-- The entries of answers from a position on, in the order of their keys. -/
def scanFrom (hash : Digest) : (position : Nat) → List (Answer digest) → List (Bytes × Bytes)
  | _, [] => []
  | position, a :: answers =>
    scanOf hash (UInt32.ofNat position) a ++ scanFrom hash (position + 1) answers

theorem arranged_perm (hash : Digest) (n : UInt32) (a : Answer digest) :
    (arranged hash n a).Perm a.relation.tuples :=
  List.mergeSort_perm _ _

theorem scanOf_perm (hash : Digest) (n : UInt32) (a : Answer digest) :
    (scanOf hash n a).Perm (entriesOf hash n a) :=
  ((arranged_perm hash n a).map _).cons _

theorem scanFrom_perm (hash : Digest) (position : Nat) (answers : List (Answer digest)) :
    (scanFrom hash position answers).Perm (entriesFrom hash position answers) := by
  induction answers generalizing position with
  | nil => exact .refl _
  | cons a answers ih => exact (scanOf_perm hash _ a).append (ih _)

/-- The keys of an answer begin with its position. -/
theorem exists_key_of_mem_scanOf
    {hash : Digest} {n : UInt32} {a : Answer digest} {e : Bytes × Bytes}
    (he : e ∈ scanOf hash n a) : ∃ bs, e.1 = answerKey n ++ bs := by
  rcases List.mem_cons.mp he with rfl | he
  · exact ⟨[headerTag], rfl⟩
  · obtain ⟨t, -, rfl⟩ := List.mem_map.mp he
    exact ⟨_, tupleKey_eq hash n t⟩

theorem exists_key_of_mem_scanFrom
    {hash : Digest} {position : Nat} {answers : List (Answer digest)} {e : Bytes × Bytes}
    (he : e ∈ scanFrom hash position answers) :
    ∃ i, position ≤ i ∧ i < position + answers.length ∧
      ∃ bs, e.1 = answerKey (UInt32.ofNat i) ++ bs := by
  induction answers generalizing position with
  | nil => simp [scanFrom] at he
  | cons a answers ih =>
      rw [List.length_cons]
      rcases List.mem_append.mp he with he | he
      · exact ⟨position, le_rfl, by omega, exists_key_of_mem_scanOf he⟩
      · obtain ⟨i, hle, hlt, hkey⟩ := ih he
        exact ⟨i, by omega, by omega, hkey⟩

/-- All lengths are numbers of 64 bits, as those of whatever is in memory are. -/
structure Storable (a : Answer digest) : Prop where
  header : (headerOf a).Storable
  tuples : ∀ t ∈ a.relation.tuples, Codec.Countable t

theorem scanOf_pairwise
    (hash : Digest) (n : UInt32) {a : Answer digest} (hwell : a.relation.WellFormed) :
    (scanOf hash n a).Pairwise Precedes := by
  have hle : (arranged hash n a).Pairwise fun t u =>
      (compare (tupleKey hash n t) (tupleKey hash n u)).isLE = true := by
    refine List.pairwise_mergeSort ?_ ?_ _
    · exact fun _ _ _ h h' => Std.TransCmp.isLE_trans h h'
    · intro t u
      rw [Bool.or_eq_true]
      by_cases h : (compare (tupleKey hash n t) (tupleKey hash n u)).isLE = true
      · exact .inl h
      · exact .inr (Ordering.isLE_of_eq_lt (Std.OrientedCmp.lt_of_not_isLE h))
  have hnodup : (arranged hash n a).Nodup := (arranged_perm hash n a).nodup_iff.mpr hwell.set.nodup
  refine List.pairwise_cons.mpr ⟨?_, ?_⟩
  · intro e he
    obtain ⟨t, -, rfl⟩ := List.mem_map.mp he
    exact compare_headerKey_tupleKey hash n t
  · refine List.pairwise_map.mpr ((hle.and hnodup).imp ?_)
    rintro t u ⟨htu, hne⟩
    have hkey : compare (tupleKey hash n t) (tupleKey hash n u) ≠ .eq := fun heq =>
      hne (tupleKey_injective hash n (Std.compare_eq_iff_eq.mp heq))
    exact Ordering.isLE_iff_eq_lt_or_eq_eq.mp htu |>.resolve_right hkey

theorem scanFrom_pairwise
    (hash : Digest) {position : Nat} {answers : List (Answer digest)}
    (hcount : position + answers.length ≤ 2 ^ 32)
    (hwell : ∀ a ∈ answers, a.relation.WellFormed) :
    (scanFrom hash position answers).Pairwise Precedes := by
  induction answers generalizing position with
  | nil => exact .nil
  | cons a answers ih =>
      rw [List.length_cons] at hcount
      obtain ⟨ha, hwell⟩ := List.forall_mem_cons.mp hwell
      refine List.pairwise_append.mpr ⟨scanOf_pairwise hash _ ha, ih (by omega) hwell, ?_⟩
      intro e he f hf
      obtain ⟨bs, hbs⟩ := exists_key_of_mem_scanOf he
      obtain ⟨i, hle, hlt, cs, hcs⟩ := exists_key_of_mem_scanFrom hf
      rw [Precedes, hbs, hcs]
      refine compare_answerKey ?_ bs cs
      rw [UInt32.lt_iff_toNat_lt, UInt32.toNat_ofNat', UInt32.toNat_ofNat']
      omega

/-! ## Saving -/

/-- Saving without a limit succeeds. -/
theorem save_none (s : Store) (hash : Digest) (answers : List (Answer digest)) :
    s.save hash none answers = (.ok (), s.clear.putEntries (entriesFrom hash 0 answers)) := by
  rw [save, batch_none]
  rfl

theorem isAnswerKey_of_mem_entriesFrom
    {hash : Digest} {answers : List (Answer digest)} {position : Nat} {e : Bytes × Bytes}
    (he : e ∈ entriesFrom hash position answers) : isAnswerKey e.1 = true := by
  obtain ⟨i, -, -, bs, hbs⟩ :=
    exists_key_of_mem_scanFrom ((scanFrom_perm hash position answers).mem_iff.mpr he)
  rw [hbs]
  exact isAnswerKey_answerKey _ bs

/-- A key that is none of an answer keeps its value. -/
theorem get?_save_of_not_isAnswerKey
    (s : Store) (hash : Digest) {key : Bytes} (hkey : isAnswerKey key = false)
    (answers : List (Answer digest)) :
    (s.save hash none answers).2.get? key = s.get? key := by
  rw [save_none, get?_putEntries_of_notMem, get?_clear, hkey, if_neg (by simp)]
  rintro e he rfl
  exact Bool.false_ne_true (hkey.symm.trans (isAnswerKey_of_mem_entriesFrom he))

section Saved

variable (s : Store) (hash : Digest) {answers : List (Answer digest)}
  (hcount : answers.length ≤ 2 ^ 32) (hwell : ∀ a ∈ answers, a.relation.WellFormed)

include hcount hwell in
/-- Afterwards the entries of answers are those of the saved answers. -/
theorem mem_answerEntries_save (e : Bytes × Bytes) :
    e ∈ (s.save hash none answers).2.answerEntries ↔ e ∈ entriesFrom hash 0 answers := by
  have hkeys : (entriesFrom hash 0 answers).Pairwise fun e f => e.1 ≠ f.1 := by
    refine ((scanFrom_perm hash 0 answers).pairwise_iff fun h => h.symm).mp ?_
    exact (scanFrom_pairwise hash (by omega) hwell).imp Precedes.ne
  obtain ⟨key, value⟩ := e
  rw [save_none, answerEntries, List.mem_filter, mem_toList]
  constructor
  · rintro ⟨hget, hkey⟩
    by_contra hnot
    by_cases hmem : ∃ e ∈ entriesFrom hash 0 answers, e.1 = key
    · obtain ⟨⟨key', value'⟩, he, rfl⟩ := hmem
      rw [get?_putEntries_of_mem hkeys he] at hget
      exact hnot (Option.some.inj hget ▸ he)
    · rw [get?_putEntries_of_notMem (fun e he heq => hmem ⟨e, he, heq⟩), get?_clear,
        if_pos hkey] at hget
      exact nomatch hget
  · intro he
    exact ⟨get?_putEntries_of_mem hkeys he _, isAnswerKey_of_mem_entriesFrom he⟩

include hcount hwell in
/-- A scan of the saved answers meets each header right before its tuples. -/
theorem answerEntries_save :
    (s.save hash none answers).2.answerEntries = scanFrom hash 0 answers := by
  refine eq_of_pairwise ((toList_pairwise _).filter _) (scanFrom_pairwise hash (by omega) hwell) ?_
  intro e
  rw [(scanFrom_perm hash 0 answers).mem_iff]
  exact mem_answerEntries_save s hash hcount hwell e

end Saved

end LeastModel.Store
