import LeastModel.Proofs.Relation
import LeastModel.Proofs.StoreEntries

/-!
# Loading what was saved

A scan of a saved store meets every header right before the tuples of its
answer, so putting each tuple into the latest answer puts it where it came from.

## Main statement

`Store.save_roundTrips`: after saving answers, whatever was in the store and
whatever the hash of tuples, the answers and their queries are read back and
nothing else is.
-/

namespace LeastModel

variable {digest : Digest}

/-- The same query, answered by the same tuples under the same attributes. -/
structure Answer.SameAs (a b : Answer digest) : Prop where
  query : a.query = b.query
  name : a.relation.name = b.relation.name
  schema : a.relation.schema = b.relation.schema
  /-- No tuple is lost and none is doubled; only their order may differ. -/
  tuples : a.relation.tuples.Perm b.relation.tuples

namespace Store

/-! ## Reading one answer -/

/-- What is read back of an answer. -/
def restored (hash : Digest) (n : UInt32) (a : Answer digest) : Answer digest :=
  ⟨a.query, (Relation.empty a.relation.name a.relation.schema).insertAll (arranged hash n a)⟩

theorem restored_sameAs
    (hash : Digest) (n : UInt32) {a : Answer digest} (hwell : a.relation.WellFormed) :
    (restored hash n a).SameAs a where
  query := rfl
  name := rfl
  schema := rfl
  tuples := by
    have hperm := arranged_perm hash n a
    have hread : (restored hash n a).relation.tuples = arranged hash n a :=
      TupleSet.toList_ofList_of_nodup (hperm.nodup_iff.mpr hwell.set.nodup)
    rw [hread]
    exact hperm

theorem loadFrom_header
    {key value : Bytes} {n : UInt32} (hkey : decodeKey key = .ok (n, headerTag)) {h : Header}
    (hvalue : decodeHeader value = .ok h) (rest : List (Bytes × Bytes))
    (read : List (Answer digest)) :
    loadFrom ((key, value) :: rest) read =
      loadFrom rest (⟨h.query, .empty h.name h.schema⟩ :: read) := by
  rw [loadFrom.eq_def]
  simp only [hkey]
  change (do
    let h ← decodeHeader value
    loadFrom rest (⟨h.query, .empty h.name h.schema⟩ :: read)) = _
  rw [hvalue]
  rfl

theorem loadFrom_tuple
    {key value : Bytes} {n : UInt32} (hkey : decodeKey key = .ok (n, tupleTag)) {t : Tuple}
    (hvalue : decodeTuple value = .ok t) {a : Answer digest} (ht : t.length = a.relation.arity)
    (rest : List (Bytes × Bytes)) (older : List (Answer digest)) :
    loadFrom ((key, value) :: rest) (a :: older) =
      loadFrom rest (⟨a.query, a.relation.insertAll [t]⟩ :: older) := by
  have hadd : a.relation.add t = .ok (a.relation.insertAll [t], !a.relation.contains t) :=
    Relation.add_eq_ok_iff.mpr ⟨ht, rfl, rfl⟩
  rw [loadFrom, hkey]
  change (do
    let t ← decodeTuple value
    let added ← (a.relation.add t).mapError StoreFault.misfit
    loadFrom rest (⟨a.query, added.1⟩ :: older)) = _
  rw [hvalue]
  change (do
    let added ← (a.relation.add t).mapError StoreFault.misfit
    loadFrom rest (⟨a.query, added.1⟩ :: older)) = _
  rw [hadd]
  rfl

/-- Tuples that follow each other are put into the latest answer. -/
theorem loadFrom_tuples
    {hash : Digest} {n : UInt32} {ts : List Tuple} {query : Atom} {r : Relation digest}
    (hts : ∀ t ∈ ts, Codec.Countable t ∧ t.length = r.arity) (rest : List (Bytes × Bytes))
    (read : List (Answer digest)) :
    loadFrom (ts.map (fun t => (tupleKey hash n t, encodeTuple t)) ++ rest) (⟨query, r⟩ :: read) =
      loadFrom rest (⟨query, r.insertAll ts⟩ :: read) := by
  induction ts generalizing r with
  | nil => rfl
  | cons t ts ih =>
      obtain ⟨⟨hcountable, hlength⟩, hts⟩ := List.forall_mem_cons.mp hts
      have hfirst := loadFrom_tuple (a := ⟨query, r⟩) (decodeKey_tupleKey hash n t)
        (decodeTuple_encodeTuple hcountable) hlength
          (ts.map (fun t => (tupleKey hash n t, encodeTuple t)) ++ rest) read
      exact hfirst.trans (ih hts)

theorem loadFrom_scanOf
    {hash : Digest} {n : UInt32} {a : Answer digest} (hwell : a.relation.WellFormed)
    (hstorable : Storable a) (rest : List (Bytes × Bytes)) (read : List (Answer digest)) :
    loadFrom (scanOf hash n a ++ rest) read = loadFrom rest (restored hash n a :: read) := by
  have htuples : ∀ t ∈ arranged hash n a, Codec.Countable t ∧
      t.length = (Relation.empty a.relation.name a.relation.schema : Relation digest).arity := by
    intro t ht
    have hmem := (arranged_perm hash n a).mem_iff.mp ht
    exact ⟨hstorable.tuples t hmem, hwell.arity t hmem⟩
  have hheader := loadFrom_header (decodeKey_headerKey n)
    (decodeHeader_encodeHeader hstorable.header)
    ((arranged hash n a).map (fun t => (tupleKey hash n t, encodeTuple t)) ++ rest) read
  exact hheader.trans (loadFrom_tuples htuples rest read)

/-! ## Reading all answers -/

/-- What is read back of answers from a position on. -/
def restoredFrom (hash : Digest) : (position : Nat) → List (Answer digest) → List (Answer digest)
  | _, [] => []
  | position, a :: answers =>
    restored hash (UInt32.ofNat position) a :: restoredFrom hash (position + 1) answers

theorem restoredFrom_sameAs
    (hash : Digest) (position : Nat) {answers : List (Answer digest)}
    (hwell : ∀ a ∈ answers, a.relation.WellFormed) :
    List.Forall₂ Answer.SameAs (restoredFrom hash position answers) answers := by
  induction answers generalizing position with
  | nil => exact .nil
  | cons a answers ih =>
      obtain ⟨ha, hwell⟩ := List.forall_mem_cons.mp hwell
      exact .cons (restored_sameAs hash _ ha) (ih _ hwell)

theorem loadFrom_scanFrom
    (hash : Digest) (position : Nat) {answers : List (Answer digest)}
    (hwell : ∀ a ∈ answers, a.relation.WellFormed) (hstorable : ∀ a ∈ answers, Storable a)
    (read : List (Answer digest)) :
    loadFrom (scanFrom hash position answers) read =
      .ok (read.reverse ++ restoredFrom hash position answers) := by
  induction answers generalizing position read with
  | nil => simp [scanFrom, loadFrom, restoredFrom]
  | cons a answers ih =>
      obtain ⟨ha, hwell⟩ := List.forall_mem_cons.mp hwell
      obtain ⟨ha', hstorable⟩ := List.forall_mem_cons.mp hstorable
      rw [scanFrom, loadFrom_scanOf ha ha', ih _ hwell hstorable, restoredFrom]
      simp

theorem listFrom_tuples
    (hash : Digest) (n : UInt32) (ts : List Tuple) (rest : List (Bytes × Bytes)) :
    listFrom (ts.map (fun t => (tupleKey hash n t, encodeTuple t)) ++ rest) = listFrom rest := by
  induction ts with
  | nil => rfl
  | cons t ts ih =>
      rw [List.map_cons, List.cons_append, listFrom, decodeKey_tupleKey]
      exact ih

theorem listFrom_scanFrom
    (hash : Digest) (position : Nat) {answers : List (Answer digest)}
    (hstorable : ∀ a ∈ answers, Storable a) :
    listFrom (scanFrom hash position answers) = .ok (answers.map (·.query.render ++ "?")) := by
  induction answers generalizing position with
  | nil => rfl
  | cons a answers ih =>
      obtain ⟨ha, hstorable⟩ := List.forall_mem_cons.mp hstorable
      rw [scanFrom, scanOf, List.cons_append, listFrom, decodeKey_headerKey,
        decodeHeader_encodeHeader ha.header, listFrom_tuples, ih _ hstorable]
      rfl

/-! ## The round trip -/

/-- A store that was saved to, and what it gives back. -/
structure RoundTrips (hash : Digest) (before : Store) (answers : List (Answer digest))
    (after : Store) : Prop where
  /-- The answers are loaded in their order. -/
  load : ∃ loaded : List (Answer digest),
    after.load = .ok loaded ∧ List.Forall₂ Answer.SameAs loaded answers
  /-- Their queries are listed in the same order. -/
  list : after.list = .ok (answers.map (·.query.render ++ "?"))
  /-- No other entry of an answer is there. -/
  entries : ∀ e, e ∈ after.answerEntries ↔
    ∃ i a, answers[i]? = some a ∧ e ∈ entriesOf hash (UInt32.ofNat i) a
  /-- Everything else is as before. -/
  others : ∀ key, isAnswerKey key = false → after.get? key = before.get? key

theorem mem_entriesFrom
    {hash : Digest} {position : Nat} {answers : List (Answer digest)} {e : Bytes × Bytes} :
    e ∈ entriesFrom hash position answers ↔
      ∃ i a, answers[i]? = some a ∧ e ∈ entriesOf hash (UInt32.ofNat (position + i)) a := by
  induction answers generalizing position with
  | nil => simp [entriesFrom]
  | cons a answers ih =>
      rw [entriesFrom, List.mem_append, ih]
      constructor
      · rintro (he | ⟨i, b, hb, he⟩)
        · exact ⟨0, a, rfl, he⟩
        · exact ⟨i + 1, b, hb, by rwa [Nat.add_right_comm, Nat.add_assoc] at he⟩
      · rintro ⟨i, b, hb, he⟩
        cases i with
        | zero =>
            cases Option.some.inj hb
            exact .inl he
        | succ i => exact .inr ⟨i, b, hb, by rwa [Nat.add_right_comm, Nat.add_assoc]⟩

/-- Saving answers replaces those of the store by ones that are read back. -/
theorem save_roundTrips
    (hash : Digest) (before : Store) {answers : List (Answer digest)}
    (hcount : answers.length ≤ 2 ^ 32) (hbuilt : ∀ a ∈ answers, a.relation.Built)
    (hstorable : ∀ a ∈ answers, Storable a) :
    ∃ after, before.save hash none answers = (.ok (), after) ∧
      RoundTrips hash before answers after := by
  have hwell : ∀ a ∈ answers, a.relation.WellFormed := fun a ha => (hbuilt a ha).wellFormed
  have hscan := answerEntries_save before hash hcount hwell
  refine ⟨_, save_none before hash answers, ?_⟩
  rw [save_none] at hscan
  constructor
  case load =>
    refine ⟨restoredFrom hash 0 answers, ?_, restoredFrom_sameAs hash 0 hwell⟩
    rw [load, hscan]
    exact loadFrom_scanFrom hash 0 hwell hstorable []
  case list =>
    rw [list, hscan]
    exact listFrom_scanFrom hash 0 hstorable
  case entries =>
    intro e
    have hmem := mem_answerEntries_save before hash hcount hwell e
    rw [save_none, mem_entriesFrom] at hmem
    simpa using hmem
  case others =>
    intro key hkey
    have hother := get?_save_of_not_isAnswerKey before hash hkey answers
    rwa [save_none] at hother

/-- The worst digest: all hashes are equal. -/
def zeroDigest : Digest := fun _ => 0

/-- Two tuples, one of them of an empty value. -/
def twoTuples : Relation zeroDigest := (Relation.empty "r" ["x"]).insertAll [["b"], [""]]

/-- The relation without attributes that has its only tuple. -/
def unit : Relation zeroDigest := (Relation.empty "" []).insertAll [[]]

/-- Answers whose tuples collide, to a query with a term of no known kind and to
one without terms. -/
def collidingAnswers : List (Answer zeroDigest) :=
  [⟨⟨"", [⟨⟨7⟩, "/"⟩]⟩, twoTuples⟩, ⟨⟨"p", []⟩, unit⟩]

/-- A store with an entry of an earlier answer and one of something else. -/
def usedStore : Store := (empty.put (headerKey 5) [1]).put "other" [2]

theorem save_collidingAnswers :
    collidingAnswers.length ≤ 2 ^ 32 ∧ (∀ a ∈ collidingAnswers, a.relation.Built) ∧
      (∀ a ∈ collidingAnswers, Storable a) ∧
      ∃ after, usedStore.save zeroDigest none collidingAnswers = (.ok (), after) ∧
        RoundTrips zeroDigest usedStore collidingAnswers after := by
  have hcount : collidingAnswers.length ≤ 2 ^ 32 := by decide
  have hbuilt : ∀ a ∈ collidingAnswers, a.relation.Built := by
    have htwo : Relation.ofTuples "r" ["x"] [["b"], [""]] = .ok twoTuples := rfl
    have hunit : Relation.ofTuples "" [] [[]] = .ok unit := rfl
    rw [collidingAnswers, List.forall_mem_cons, List.forall_mem_singleton]
    exact ⟨.ofTuples htwo, .ofTuples hunit⟩
  have hheaders : ∀ a ∈ collidingAnswers, (headerOf a).Storable := by
    intro a ha
    constructor
    all_goals
      revert a
      decide +kernel
  have htuples : ∀ a ∈ collidingAnswers, ∀ t ∈ a.relation.tuples, Codec.Countable t := by
    decide +kernel
  have hstorable : ∀ a ∈ collidingAnswers, Storable a := fun a ha =>
    ⟨hheaders a ha, htuples a ha⟩
  exact ⟨hcount, hbuilt, hstorable, save_roundTrips zeroDigest usedStore hcount hbuilt hstorable⟩

end Store

end LeastModel
