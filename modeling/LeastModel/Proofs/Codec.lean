import LeastModel.Codec.Varint
import LeastModel.Proofs.Delimiting
import LeastModel.Store.Record
import Mathlib.Algebra.Group.Nat.Defs

/-!
# Reading what was written

Every written item tells where it ends, so it is read back in front of anything
else. The only limit is that of the numbers: a length is read when it is below
`2 ^ 64`. Where one value starts with another both are read as the same item, so
what is written of one item is never the beginning of what is written of another.
Without that limit lists of byte strings still show where they end
(`Codec.delimits_countedList`), so different tuples are written differently.

## Main statement

`Store.encodings_selfDelimiting`: tuples and headers are read back in front of
anything, and no two of them are written as one the beginning of the other.
-/

namespace LeastModel

namespace Codec

/-! ## Numbers -/

theorem toNat_ofNat_of_lt {n : Nat} (hn : n < 256) : (UInt8.ofNat n).toNat = n := by
  rw [UInt8.toNat_ofNat', Nat.mod_eq_of_lt hn]

/-- A number is read back when its digits fit into the room for them. -/
theorem readDigits_uvarint (room n : Nat) (hn : n < 2 * 128 ^ room) (rest : Bytes) :
    readDigits? (room + 1) (uvarint n ++ rest) = some (n, rest) := by
  induction room generalizing n with
  | zero =>
      have hsmall : n < 2 := by simpa using hn
      rw [uvarint, if_pos (by omega), List.singleton_append, readDigits?,
        toNat_ofNat_of_lt (by omega), if_pos (by omega), if_neg (by omega)]
  | succ room ih =>
      rw [uvarint]
      split
      · rename_i hsmall
        rw [List.singleton_append, readDigits?, toNat_ofNat_of_lt (by omega), if_pos hsmall,
          if_neg (by omega)]
      · rename_i hlarge
        have hbyte : (UInt8.ofNat (n % 128 + 128)).toNat = n % 128 + 128 :=
          toNat_ofNat_of_lt (by omega)
        have hhigh : n / 128 < 2 * 128 ^ room := by
          rw [Nat.div_lt_iff_lt_mul (by omega)]
          rwa [Nat.pow_succ, ← Nat.mul_assoc] at hn
        rw [List.cons_append, readDigits?, hbyte, if_neg (by omega), ih _ hhigh]
        simp only [Option.bind_eq_bind, Option.bind_some, Option.pure_def]
        congr 2
        omega

theorem readUvarint_uvarint {n : Nat} (hn : n < 2 ^ 64) (rest : Bytes) :
    readUvarint? (uvarint n ++ rest) = some (n, rest) :=
  readDigits_uvarint 9 n (by simpa using hn) rest

theorem length_uvarint_pos (n : Nat) : 0 < (uvarint n).length := by
  rw [uvarint]
  split
  · exact Nat.one_pos
  · exact Nat.succ_pos _

/-- A number shows where it ends, however large it is. -/
theorem delimits_uvarint : Delimits (fun _ : Nat => True) uvarint := by
  intro n m _ _ rest more heq
  -- Both are read back with room for the digits of the larger one.
  have hroom : max n m < 128 ^ max n m := Nat.lt_pow_self (by omega)
  have hread := readDigits_uvarint (max n m) n (by omega) rest
  rw [heq, readDigits_uvarint (max n m) m (by omega) more] at hread
  obtain ⟨rfl, rfl⟩ := Prod.mk.inj (Option.some.inj hread)
  exact ⟨rfl, rfl⟩

/-! ## Byte strings and lists -/

theorem delimits_counted : Delimits (fun _ : Bytes => True) counted :=
  delimits_uvarint.andThen (fun _ _ => trivial) fun n =>
    (delimits_ofLength n).imp fun _ h => h.2

theorem delimits_countedList : Delimits (fun _ : List Bytes => True) countedList :=
  delimits_uvarint.andThen (fun _ _ => trivial) fun n =>
    (delimits_counted.flatMap n).imp fun _ h => ⟨fun _ _ => trivial, h.2⟩

theorem readCounted_counted {bs : Bytes} (hbs : bs.length < 2 ^ 64) (rest : Bytes) :
    readCounted? (counted bs ++ rest) = some (bs, rest) := by
  rw [readCounted?, counted, List.append_assoc, readUvarint_uvarint hbs]
  simp

theorem length_counted_pos (bs : Bytes) : 0 < (counted bs).length := by
  rw [counted, List.length_append]
  exact Nat.add_pos_left (length_uvarint_pos _) _

/-- Items are read back one after another. -/
theorem readMany_flatMap
    {α : Type} {item? : Bytes → Option (α × Bytes)} {write : α → Bytes} {xs : List α}
    (hitem : ∀ x ∈ xs, ∀ rest, item? (write x ++ rest) = some (x, rest)) (rest : Bytes) :
    readMany? item? xs.length (xs.flatMap write ++ rest) = some (xs, rest) := by
  induction xs with
  | nil => rfl
  | cons x xs ih =>
      obtain ⟨hx, hxs⟩ := List.forall_mem_cons.mp hitem
      rw [List.length_cons, readMany?, List.flatMap_cons, List.append_assoc, hx]
      simp only [Option.bind_eq_bind, Option.bind_some, ih hxs, Option.pure_def]

theorem length_le_flatMap
    {α : Type} {write : α → Bytes} (hwrite : ∀ x, 0 < (write x).length) (xs : List α) :
    xs.length ≤ (xs.flatMap write).length := by
  induction xs with
  | nil => exact Nat.le_refl 0
  | cons x xs ih =>
      have hx := hwrite x
      rw [List.flatMap_cons, List.length_append, List.length_cons]
      omega

/-- A list is read back, since no item is written as nothing. -/
theorem readList_flatMap
    {α : Type} {item? : Bytes → Option (α × Bytes)} {write : α → Bytes}
    (hwrite : ∀ x, 0 < (write x).length) {xs : List α} (hlength : xs.length < 2 ^ 64)
    (hitem : ∀ x ∈ xs, ∀ rest, item? (write x ++ rest) = some (x, rest)) (rest : Bytes) :
    readList? item? (uvarint xs.length ++ xs.flatMap write ++ rest) = some (xs, rest) := by
  have hle := length_le_flatMap hwrite xs
  rw [readList?, List.append_assoc, readUvarint_uvarint hlength]
  simp only [Option.bind_eq_bind, Option.bind_some]
  rw [if_neg (by rw [List.length_append]; omega), readMany_flatMap hitem]

/-- Byte strings whose lengths and number can be written. -/
def Countable (items : List Bytes) : Prop :=
  items.length < 2 ^ 64 ∧ ∀ bs ∈ items, bs.length < 2 ^ 64

instance (items : List Bytes) : Decidable (Countable items) :=
  inferInstanceAs (Decidable (_ ∧ _))

theorem readCountedList_countedList {items : List Bytes} (h : Countable items) (rest : Bytes) :
    readCountedList? (countedList items ++ rest) = some (items, rest) :=
  readList_flatMap length_counted_pos h.1 (fun bs hbs => readCounted_counted (h.2 bs hbs)) rest

end Codec

namespace Store

/-! ## Records -/

/-- A header whose lengths can be written. -/
structure Header.Storable (h : Header) : Prop where
  query : h.query.name.length < 2 ^ 64
  arity : h.query.terms.length < 2 ^ 64
  terms : ∀ t ∈ h.query.terms, t.value.length < 2 ^ 64
  name : h.name.length < 2 ^ 64
  schema : Codec.Countable h.schema

theorem length_encodeTerm_pos (t : Term) : 0 < (encodeTerm t).length := Nat.succ_pos _

theorem readTerm_encodeTerm {t : Term} (ht : t.value.length < 2 ^ 64) (rest : Bytes) :
    readTerm? (encodeTerm t ++ rest) = some (t, rest) := by
  rw [readTerm?, encodeTerm, List.cons_append, Codec.readByte?]
  simp only [Option.bind_eq_bind, Option.bind_some, Codec.readCounted_counted ht, Option.pure_def]

theorem readHeader_encodeHeader {h : Header} (hstorable : h.Storable) (rest : Bytes) :
    readHeader? (encodeHeader h ++ rest) = some (h, rest) := by
  have hterms := Codec.readList_flatMap length_encodeTerm_pos hstorable.arity
    fun t ht => readTerm_encodeTerm (hstorable.terms t ht)
  simp only [List.append_assoc] at hterms
  rw [readHeader?, encodeHeader]
  simp only [List.append_assoc, Codec.readCounted_counted hstorable.query, hterms,
    Codec.readCounted_counted hstorable.name,
    Codec.readCountedList_countedList hstorable.schema, Option.bind_eq_bind, Option.bind_some,
    Option.pure_def]

/-- A header is read from a value that starts with it. -/
theorem decodeHeader_append {h : Header} (hstorable : h.Storable) (rest : Bytes) :
    decodeHeader (encodeHeader h ++ rest) = .ok h := by
  rw [decodeHeader, readHeader_encodeHeader hstorable]

theorem decodeHeader_encodeHeader {h : Header} (hstorable : h.Storable) :
    decodeHeader (encodeHeader h) = .ok h := by
  have hdecode := decodeHeader_append hstorable []
  rwa [List.append_nil] at hdecode

/-- A tuple is read from a value that starts with it. -/
theorem decodeTuple_append {t : Tuple} (ht : Codec.Countable t) (rest : Bytes) :
    decodeTuple (encodeTuple t ++ rest) = .ok t := by
  rw [decodeTuple, encodeTuple, Codec.readCountedList_countedList ht]

theorem decodeTuple_encodeTuple {t : Tuple} (ht : Codec.Countable t) :
    decodeTuple (encodeTuple t) = .ok t := by
  have hdecode := decodeTuple_append ht []
  rwa [List.append_nil] at hdecode

/-! ## What is written is no beginning of anything else -/

/-- Of two values of which one starts with the other the same is read. -/
theorem eq_of_startsWith
    {α : Type} {decode : Bytes → Except StoreFault α} {encode : α → Bytes} {good : α → Prop}
    (hdecode : ∀ {x}, good x → ∀ rest, decode (encode x ++ rest) = .ok x) {x y : α}
    (hx : good x) (hy : good y) (h : encode x <+: encode y) : x = y := by
  obtain ⟨rest, hrest⟩ := h
  have hread := hdecode hx rest
  have hread' := hdecode hy []
  rw [List.append_nil, ← hrest, hread] at hread'
  exact Except.ok.inj hread'

/-- Different tuples are written differently. -/
theorem encodeTuple_injective : Function.Injective encodeTuple :=
  fun _ _ h => (Codec.delimits_countedList trivial trivial (congrArg (· ++ []) h)).1

/-- Tuples and headers are read back in front of anything, so that neither is
written as the beginning of another one. -/
theorem encodings_selfDelimiting :
    (∀ t : Tuple, Codec.Countable t → ∀ rest, decodeTuple (encodeTuple t ++ rest) = .ok t) ∧
    (∀ h : Header, h.Storable → ∀ rest, decodeHeader (encodeHeader h ++ rest) = .ok h) ∧
    (∀ t u : Tuple, Codec.Countable t → Codec.Countable u → t ≠ u →
      ¬encodeTuple t <+: encodeTuple u) ∧
    ∀ h k : Header, h.Storable → k.Storable → h ≠ k → ¬encodeHeader h <+: encodeHeader k := by
  refine ⟨fun t ht => decodeTuple_append ht, fun h hh => decodeHeader_append hh, ?_, ?_⟩
  · intro t u ht hu hne hprefix
    exact hne (eq_of_startsWith decodeTuple_append ht hu hprefix)
  · intro h k hh hk hne hprefix
    exact hne (eq_of_startsWith decodeHeader_append hh hk hprefix)

/-- Empty values, a value whose length takes two bytes, a query without terms and
one with terms of no known kind. -/
theorem encodings_selfDelimiting_long :
    let t : Tuple := [[], List.replicate 200 0x80]
    let u : Tuple := [[], List.replicate 200 0x80, []]
    let h : Header := ⟨⟨"p", [⟨⟨255⟩, ""⟩, ⟨⟨7⟩, "'"⟩]⟩, "", []⟩
    let k : Header := ⟨⟨"", []⟩, "p", ["", "x"]⟩
    (Codec.Countable t ∧ Codec.Countable u ∧ t ≠ u ∧ h.Storable ∧ k.Storable ∧ h ≠ k) ∧
      decodeTuple (encodeTuple t ++ [0x80]) = .ok t ∧
      decodeHeader (encodeHeader h ++ [0x80]) = .ok h ∧
      ¬encodeTuple t <+: encodeTuple u ∧ ¬encodeHeader h <+: encodeHeader k := by
  intro t u h k
  have ht : Codec.Countable t := by decide +kernel
  have hu : Codec.Countable u := by decide +kernel
  have htu : t ≠ u := by decide +kernel
  have hh : h.Storable := ⟨by decide, by decide, by decide, by decide, by decide⟩
  have hk : k.Storable := ⟨by decide, by decide, by decide, by decide, by decide⟩
  have hhk : h ≠ k := by decide
  obtain ⟨htuple, hheader, htuples, hheaders⟩ := encodings_selfDelimiting
  exact ⟨⟨ht, hu, htu, hh, hk, hhk⟩, htuple t ht _, hheader h hh _, htuples t u ht hu htu,
    hheaders h k hh hk hhk⟩

end Store

end LeastModel
