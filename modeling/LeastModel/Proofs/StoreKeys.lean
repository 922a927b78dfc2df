import LeastModel.Proofs.Codec
import LeastModel.Store.Basic

/-!
# The order of keys

Keys compare byte by byte. All keys of an answer begin with its position, highest
byte first, so they stand before the keys of every later answer; the key of its
header stands before those of its tuples, and the latter end with the whole
tuple, which keeps them apart whatever the hash.

## Main statement

`Store.keys_sortByAnswer`: keys sort by answer with the header first, and each of them
tells its position, its tag and, for a tuple of a given answer, the tuple.
-/

namespace LeastModel

namespace Bytes

/-! ## Comparing byte by byte -/

theorem compare_append_left (bs cs ds : Bytes) :
    compare (bs ++ cs) (bs ++ ds) = compare cs ds := by
  induction bs with
  | nil => rfl
  | cons b bs ih =>
      have hself : compare b b = .eq := Std.ReflOrd.compare_self
      change List.compareLex compare (b :: (bs ++ cs)) (b :: (bs ++ ds)) = _
      rw [List.compareLex_cons_cons, hself]
      exact ih

/-- What follows does not matter after a difference. -/
theorem compare_append_of_lt
    {bs cs : Bytes} (hlength : bs.length = cs.length) (h : compare bs cs = .lt) (ds es : Bytes) :
    compare (bs ++ ds) (cs ++ es) = .lt := by
  induction bs generalizing cs with
  | nil =>
      cases cs with
      | nil => exact nomatch h
      | cons c cs => exact nomatch hlength
  | cons b bs ih =>
      cases cs with
      | nil => exact nomatch hlength
      | cons c cs =>
          change List.compareLex compare (b :: bs) (c :: cs) = .lt at h
          change List.compareLex compare (b :: (bs ++ ds)) (c :: (cs ++ es)) = .lt
          rw [List.compareLex_cons_cons] at h ⊢
          cases hbc : compare b c with
          | lt => rfl
          | gt =>
              rw [hbc] at h
              exact nomatch h
          | eq =>
              rw [hbc] at h
              exact ih (by simpa using hlength) h

/-- The order in which a store arranges its keys is the lexicographic one. -/
theorem compare_eq_lt_iff {bs cs : Bytes} : compare bs cs = .lt ↔ bs < cs := by
  induction bs generalizing cs with
  | nil =>
      cases cs with
      | nil => simp
      | cons c cs => exact iff_of_true rfl (List.nil_lt_cons c cs)
  | cons b bs ih =>
      cases cs with
      | nil => exact iff_of_false nofun (List.not_lt_nil _)
      | cons c cs =>
          change List.compareLex compare (b :: bs) (c :: cs) = .lt ↔ _
          rw [List.compareLex_cons_cons, List.cons_lt_cons_iff]
          cases hbc : compare b c with
          | lt => exact iff_of_true rfl (.inl (Std.compare_eq_lt.mp hbc))
          | eq =>
              obtain rfl := Std.compare_eq_iff_eq.mp hbc
              have htail : List.compareLex compare bs cs = .lt ↔ bs < cs := ih
              simpa using htail
          | gt =>
              have hlt : c < b := Std.compare_eq_gt.mp hbc
              refine iff_of_false nofun ?_
              rintro (h | ⟨rfl, -⟩)
              · exact UInt8.lt_asymm h hlt
              · exact UInt8.lt_irrefl b hlt

end Bytes

namespace Store

/-! ## Positions -/

theorem toNat_byte (n : UInt32) :
    (n >>> 24).toUInt8.toNat = n.toNat / 2 ^ 24 ∧
      (n >>> 16).toUInt8.toNat = n.toNat / 2 ^ 16 % 256 ∧
      (n >>> 8).toUInt8.toNat = n.toNat / 2 ^ 8 % 256 ∧ n.toUInt8.toNat = n.toNat % 256 := by
  have hn := n.toNat_lt
  refine ⟨?_, ?_, ?_, ?_⟩
  · simp [Nat.shiftRight_eq_div_pow]
    omega
  · simp [Nat.shiftRight_eq_div_pow]
  · simp [Nat.shiftRight_eq_div_pow]
  · simp

theorem compare_cons_of_le
    {b c : UInt8} {bs cs : Bytes} (hle : b.toNat ≤ c.toNat)
    (h : b.toNat = c.toNat → compare bs cs = .lt) : compare (b :: bs) (c :: cs) = .lt := by
  change List.compareLex compare (b :: bs) (c :: cs) = .lt
  rw [List.compareLex_cons_cons]
  by_cases hbc : b = c
  · have heq : compare b c = .eq := Std.compare_eq_iff_eq.mpr hbc
    rw [heq]
    exact h (congrArg UInt8.toNat hbc)
  · have hlt : compare b c = .lt := Std.compare_eq_lt.mpr (UInt8.lt_of_le_of_ne hle hbc)
    rw [hlt]
    rfl

/-- Positions compare as their bytes, highest first, do. -/
theorem compare_bigEndian32 {n m : UInt32} (h : n < m) :
    compare (bigEndian32 n) (bigEndian32 m) = .lt := by
  have hlt : n.toNat < m.toNat := h
  obtain ⟨hn3, hn2, hn1, hn0⟩ := toNat_byte n
  obtain ⟨hm3, hm2, hm1, hm0⟩ := toNat_byte m
  -- A byte may be larger only after one that is smaller.
  refine compare_cons_of_le (by omega) fun h3 => ?_
  refine compare_cons_of_le (by omega) fun h2 => ?_
  refine compare_cons_of_le (by omega) fun h1 => ?_
  exact compare_cons_of_le (by omega) fun h0 => absurd hlt (by omega)

theorem testBit_byte {k : Nat} (hk : k + 8 ≤ 32) (m i : Nat) :
    ((m >>> k % 2 ^ 8) <<< k % 2 ^ 32).testBit i =
      (decide (k ≤ i ∧ i < k + 8) && m.testBit i) := by
  rw [Nat.testBit_mod_two_pow, Nat.testBit_shiftLeft, Nat.testBit_mod_two_pow,
    Nat.testBit_shiftRight]
  by_cases hi : k ≤ i
  · rw [Nat.add_sub_cancel' hi]
    by_cases hlt : i < k + 8
    · simp [hi, hlt, show i < 32 by omega, show i - k < 8 by omega]
    · simp [hlt, show ¬i - k < 8 by omega]
  · simp [hi]

/-- Four bytes, the highest first, give their position back. -/
theorem position_of_bytes (n : UInt32) :
    ((n >>> 24).toUInt8.toUInt32 <<< 24) ||| ((n >>> 16).toUInt8.toUInt32 <<< 16) |||
      ((n >>> 8).toUInt8.toUInt32 <<< 8) ||| n.toUInt8.toUInt32 = n := by
  apply UInt32.toNat_inj.mp
  apply Nat.eq_of_testBit_eq
  intro i
  have h3 : ((n >>> 24).toUInt8.toUInt32 <<< 24).toNat.testBit i =
      (decide (24 ≤ i ∧ i < 32) && n.toNat.testBit i) := testBit_byte (k := 24) (by omega) _ i
  have h2 : ((n >>> 16).toUInt8.toUInt32 <<< 16).toNat.testBit i =
      (decide (16 ≤ i ∧ i < 24) && n.toNat.testBit i) := testBit_byte (k := 16) (by omega) _ i
  have h1 : ((n >>> 8).toUInt8.toUInt32 <<< 8).toNat.testBit i =
      (decide (8 ≤ i ∧ i < 16) && n.toNat.testBit i) := testBit_byte (k := 8) (by omega) _ i
  have h0 : n.toUInt8.toUInt32.toNat.testBit i = (decide (i < 8) && n.toNat.testBit i) :=
    Nat.testBit_mod_two_pow n.toNat 8 i
  have hhigh : n.toNat.testBit i = true → i < 32 := by
    intro hi
    refine Nat.lt_of_not_le fun hge => Bool.false_ne_true ?_
    have hlt := Nat.lt_of_lt_of_le n.toNat_lt (Nat.pow_le_pow_right (by omega) hge)
    exact (Nat.testBit_lt_two_pow hlt).symm.trans hi
  rw [UInt32.toNat_or, UInt32.toNat_or, UInt32.toNat_or, Nat.testBit_or, Nat.testBit_or,
    Nat.testBit_or, h3, h2, h1, h0, Bool.eq_iff_iff]
  simp only [Bool.or_eq_true, Bool.and_eq_true, decide_eq_true_iff]
  constructor
  · rintro (((⟨-, hi⟩ | ⟨-, hi⟩) | ⟨-, hi⟩) | ⟨-, hi⟩)
    all_goals exact hi
  · intro hi
    have hlt := hhigh hi
    simp only [hi, and_true]
    omega

/-- Any four bytes are those of a position. -/
theorem exists_bigEndian32 (a b c d : UInt8) : ∃ n, bigEndian32 n = [a, b, c, d] := by
  let number := a.toNat * 2 ^ 24 + b.toNat * 2 ^ 16 + c.toNat * 2 ^ 8 + d.toNat
  have ha := a.toNat_lt
  have hb := b.toNat_lt
  have hc := c.toNat_lt
  have hd := d.toNat_lt
  have hnumber : (UInt32.ofNat number).toNat = number := UInt32.toNat_ofNat_of_lt' (by
    change number < 4294967296
    omega)
  obtain ⟨h3, h2, h1, h0⟩ := toNat_byte (UInt32.ofNat number)
  rw [hnumber] at h3 h2 h1 h0
  refine ⟨UInt32.ofNat number, ?_⟩
  simp only [bigEndian32, List.cons.injEq, ← UInt8.toNat_inj, and_true]
  exact ⟨h3.trans (by omega), h2.trans (by omega), h1.trans (by omega), h0.trans (by omega)⟩

/-! ## Keys of answers -/

theorem isAnswerKey_iff {key : Bytes} : isAnswerKey key = true ↔ answerMark <+: key :=
  List.isPrefixOf_iff_prefix

theorem isAnswerKey_answerKey (n : UInt32) (bs : Bytes) :
    isAnswerKey (answerKey n ++ bs) = true := by
  rw [isAnswerKey_iff, answerKey, List.append_assoc, List.append_assoc]
  exact List.prefix_append _ _

theorem decodeKey_answerKey (n : UInt32) (tag : UInt8) (bs : Bytes) :
    decodeKey (answerKey n ++ tag :: bs) = .ok (n, tag) := by
  rw [decodeKey, answerKey, List.append_assoc, List.append_assoc, List.drop_left]
  simp only [bigEndian32, List.cons_append, List.nil_append, if_true, position_of_bytes]

/-- A key from which a position and a tag are read begins with them. -/
theorem exists_answerKey_of_decodeKey
    {key : Bytes} (hkey : isAnswerKey key = true) {n : UInt32} {tag : UInt8}
    (h : decodeKey key = .ok (n, tag)) : ∃ bs, key = answerKey n ++ tag :: bs := by
  obtain ⟨tail, rfl⟩ := isAnswerKey_iff.mp hkey
  have hread := h
  rw [decodeKey, List.drop_left] at h
  split at h
  · rename_i a b c d slash tag' bs
    split at h
    · rename_i hslash
      obtain ⟨m, hm⟩ := exists_bigEndian32 a b c d
      have heq : answerMark ++ a :: b :: c :: d :: slash :: tag' :: bs =
          answerKey m ++ tag' :: bs := by
        rw [answerKey, hm, hslash]
        simp
      rw [heq, decodeKey_answerKey] at hread
      cases hread
      exact ⟨bs, heq⟩
    · exact nomatch h
  · exact nomatch h

theorem length_bigEndian32 (n : UInt32) : (bigEndian32 n).length = 4 := rfl

theorem length_bigEndian64 (n : UInt64) : (bigEndian64 n).length = 8 := rfl

theorem tupleKey_eq (hash : Digest) (n : UInt32) (t : Tuple) :
    tupleKey hash n t = answerKey n ++ tupleTag ::
      (separator :: (bigEndian64 (hash (encodeTuple t)) ++ encodeTuple t)) := by
  simp [tupleKey]

theorem decodeKey_headerKey (n : UInt32) : decodeKey (headerKey n) = .ok (n, headerTag) :=
  decodeKey_answerKey n headerTag []

theorem decodeKey_tupleKey (hash : Digest) (n : UInt32) (t : Tuple) :
    decodeKey (tupleKey hash n t) = .ok (n, tupleTag) := by
  rw [tupleKey_eq, decodeKey_answerKey]

/-- The keys of an answer stand before those of every later one. -/
theorem compare_answerKey {n m : UInt32} (h : n < m) (bs cs : Bytes) :
    compare (answerKey n ++ bs) (answerKey m ++ cs) = .lt := by
  simp only [answerKey, List.append_assoc]
  rw [Bytes.compare_append_left]
  have hlength : (bigEndian32 n).length = (bigEndian32 m).length := by
    rw [length_bigEndian32, length_bigEndian32]
  exact Bytes.compare_append_of_lt hlength (compare_bigEndian32 h) _ _

/-- The header of an answer stands before its tuples. -/
theorem compare_headerKey_tupleKey (hash : Digest) (n : UInt32) (t : Tuple) :
    compare (headerKey n) (tupleKey hash n t) = .lt := by
  rw [tupleKey_eq, headerKey, Bytes.compare_append_left]
  rfl

/-- Tuples of an answer have different keys, whatever their hashes. -/
theorem tupleKey_injective (hash : Digest) (n : UInt32) :
    Function.Injective (tupleKey hash n) := by
  intro t u h
  refine encodeTuple_injective (List.append_inj_right h ?_)
  simp only [List.length_append, length_bigEndian64]

/-! ## Keys in ascending order -/

/-- Keys sort by answer, and the header of an answer before its tuples, whatever
bytes there are in positions, hashes and values. Tuples of an answer that differ
have keys that differ. Every key begins like the key of an answer, and the position
and the tag that it was built from are read from it. -/
theorem keys_sortByAnswer (hash : Digest) :
    (∀ n t, headerKey n < tupleKey hash n t) ∧
    (∀ n m, n < m → ∀ t u, tupleKey hash n t < headerKey m ∧
      tupleKey hash n t < tupleKey hash m u) ∧
    (∀ n t u, tupleKey hash n t = tupleKey hash n u ↔ t = u) ∧
    (∀ n t, ("answer/" : Bytes) <+: headerKey n ∧ ("answer/" : Bytes) <+: tupleKey hash n t) ∧
    ∀ n t, decodeKey (headerKey n) = .ok (n, headerTag) ∧
      decodeKey (tupleKey hash n t) = .ok (n, tupleTag) := by
  refine ⟨?_, ?_, ?_, ?_, ?_⟩
  · intro n t
    exact Bytes.compare_eq_lt_iff.mp (compare_headerKey_tupleKey hash n t)
  · intro n m hlt t u
    rw [tupleKey_eq hash n, tupleKey_eq hash m, headerKey]
    exact ⟨Bytes.compare_eq_lt_iff.mp (compare_answerKey hlt _ _),
      Bytes.compare_eq_lt_iff.mp (compare_answerKey hlt _ _)⟩
  · intro n t u
    exact (tupleKey_injective hash n).eq_iff
  · intro n t
    rw [tupleKey_eq]
    exact ⟨isAnswerKey_iff.mp (isAnswerKey_answerKey n _),
      isAnswerKey_iff.mp (isAnswerKey_answerKey n _)⟩
  · intro n t
    exact ⟨decodeKey_headerKey n, decodeKey_tupleKey hash n t⟩

/-- Positions made of separators and tags, of which the smaller one ends with the
larger byte, and two tuples of the same text and the same hash. -/
theorem keys_sortByAnswer_colliding :
    let hash : Digest := fun _ => 0x2F742F682F742F68
    let t : Tuple := ["a/", "b"]
    let u : Tuple := ["a", "/b"]
    (0x2F682FFF : UInt32) < 0x2F683000 ∧
      headerKey 0x2F682FFF < tupleKey hash 0x2F682FFF t ∧
      tupleKey hash 0x2F682FFF t < headerKey 0x2F683000 ∧
      tupleKey hash 0x2F682FFF t < tupleKey hash 0x2F683000 u ∧
      hash (encodeTuple t) = hash (encodeTuple u) ∧
      tupleKey hash 0x2F682FFF t ≠ tupleKey hash 0x2F682FFF u ∧
      decodeKey (tupleKey hash 0x2F682FFF t) = .ok (0x2F682FFF, tupleTag) := by
  intro hash t u
  have hlt : (0x2F682FFF : UInt32) < 0x2F683000 := by decide
  have htu : t ≠ u := by decide
  obtain ⟨hheader, hlater, hinjective, -, hdecode⟩ := keys_sortByAnswer hash
  obtain ⟨hnext, htuple⟩ := hlater _ _ hlt t u
  exact ⟨hlt, hheader _ t, hnext, htuple, rfl, fun h => htu ((hinjective _ t u).mp h),
    (hdecode _ t).2⟩

end Store

end LeastModel
