import LeastModel.Proofs.Utf8

/-!
# Texts put between the characters of a byte string

A byte string may be cut between two of its characters, also where some of them
are malformed bytes. The bytes of a well-formed sequence that follow its first
one are continuation bytes, and no character starts with such a byte. So the
characters before the cut are found again in front of any other text
(`runes_append`), and a text that is put there is read as itself
(`decode_insertAt`).
-/

namespace LeastModel.Utf8

/-- The byte string with a text put behind its first `i` characters. -/
def insertAt (bs : Bytes) (i : Nat) (cs : List Char) : Bytes :=
  ((runes bs).take i).flatMap (·.bytes) ++ encode cs ++ ((runes bs).drop i).flatMap (·.bytes)

/-! ## Continuation bytes -/

/-- A byte that follows the first one of a sequence. -/
def IsTail (b : UInt8) : Prop := 0x80 ≤ b.toNat ∧ b.toNat ≤ 0xBF

theorem isTail_of_tailBits? {b : UInt8} {n : Nat} (h : tailBits? b = some n) : IsTail b := by
  rw [tailBits?] at h
  split at h
  · assumption
  · cases h

theorem two?_eq_some {a b : UInt8} {c : Char} (h : two? a b = some c) :
    0xC0 ≤ a.toNat ∧ IsTail b := by
  rw [two?] at h
  split at h
  · rename_i hlead
    obtain ⟨n, hb, -⟩ := Option.bind_eq_some_iff.mp h
    exact ⟨hlead.1, isTail_of_tailBits? hb⟩
  · cases h

theorem three?_eq_some {a b b' : UInt8} {c : Char} (h : three? a b b' = some c) :
    0xE0 ≤ a.toNat ∧ IsTail b ∧ IsTail b' := by
  rw [three?] at h
  split at h
  · rename_i hlead
    obtain ⟨n, hb, h⟩ := Option.bind_eq_some_iff.mp h
    obtain ⟨n', hb', -⟩ := Option.bind_eq_some_iff.mp h
    exact ⟨hlead.1, isTail_of_tailBits? hb, isTail_of_tailBits? hb'⟩
  · cases h

theorem four?_eq_some {a b b' b'' : UInt8} {c : Char} (h : four? a b b' b'' = some c) :
    0xF0 ≤ a.toNat ∧ IsTail b ∧ IsTail b' ∧ IsTail b'' := by
  rw [four?] at h
  split at h
  · rename_i hlead
    obtain ⟨n, hb, h⟩ := Option.bind_eq_some_iff.mp h
    obtain ⟨n', hb', h⟩ := Option.bind_eq_some_iff.mp h
    obtain ⟨n'', hb'', -⟩ := Option.bind_eq_some_iff.mp h
    exact ⟨hlead.1, isTail_of_tailBits? hb, isTail_of_tailBits? hb', isTail_of_tailBits? hb''⟩
  · cases h

/-- The byte `a` and continuation bytes are the sequence of `c`, whatever follows. -/
structure IsSequence (a : UInt8) (bs : Bytes) (c : Char) : Prop where
  lead : ¬IsTail a
  tail : ∀ b ∈ bs, IsTail b
  found : ∀ rest, sequence? a (bs ++ rest) = some (c, bs.length)

theorem IsSequence.of_ascii {a : UInt8} (ha : a.toNat < 0x80) :
    IsSequence a [] (Char.ofNat a.toNat) where
  lead := by rw [IsTail]; omega
  tail := by simp
  found := sequence?_one ha

theorem IsSequence.of_two? {a b : UInt8} {c : Char} (h : two? a b = some c) :
    IsSequence a [b] c := by
  obtain ⟨ha, hb⟩ := two?_eq_some h
  exact ⟨by rw [IsTail]; omega, by simpa using hb, sequence?_two (by omega) h⟩

theorem IsSequence.of_three? {a b b' : UInt8} {c : Char} (h : three? a b b' = some c) :
    IsSequence a [b, b'] c := by
  obtain ⟨ha, hb, hb'⟩ := three?_eq_some h
  exact ⟨by rw [IsTail]; omega, by simpa using ⟨hb, hb'⟩, sequence?_three ha h⟩

theorem IsSequence.of_four? {a b b' b'' : UInt8} {c : Char} (h : four? a b b' b'' = some c) :
    IsSequence a [b, b', b''] c := by
  obtain ⟨ha, hb, hb', hb''⟩ := four?_eq_some h
  exact ⟨by rw [IsTail]; omega, by simpa using ⟨hb, hb', hb''⟩, sequence?_four ha h⟩

/-- Whatever sequence is found is one on its own. -/
theorem exists_isSequence {a : UInt8} {bs : Bytes} {c : Char} {n : Nat}
    (h : sequence? a bs = some (c, n)) :
    ∃ tail rest, bs = tail ++ rest ∧ n = tail.length ∧ IsSequence a tail c := by
  unfold sequence? at h
  split at h
  · rename_i ha
    cases h
    exact ⟨[], bs, rfl, rfl, .of_ascii ha⟩
  · split at h
    · rename_i b b' b'' rest
      simp only [Option.orElse_eq_orElse, Option.orElse_eq_or, Option.or_eq_some_iff,
        Option.map_eq_some_iff, Prod.mk.injEq] at h
      rcases h with ⟨_, htwo, rfl, rfl⟩ | ⟨-, ⟨_, hthree, rfl, rfl⟩ | ⟨-, _, hfour, rfl, rfl⟩⟩
      · exact ⟨[b], b' :: b'' :: rest, rfl, rfl, .of_two? htwo⟩
      · exact ⟨[b, b'], b'' :: rest, rfl, rfl, .of_three? hthree⟩
      · exact ⟨[b, b', b''], rest, rfl, rfl, .of_four? hfour⟩
    · rename_i b b'
      simp only [Option.orElse_eq_orElse, Option.orElse_eq_or, Option.or_eq_some_iff,
        Option.map_eq_some_iff, Prod.mk.injEq] at h
      rcases h with ⟨_, htwo, rfl, rfl⟩ | ⟨-, _, hthree, rfl, rfl⟩
      · exact ⟨[b], [b'], rfl, rfl, .of_two? htwo⟩
      · exact ⟨[b, b'], [], rfl, rfl, .of_three? hthree⟩
    · rename_i b
      obtain ⟨_, htwo, heq⟩ := Option.map_eq_some_iff.mp h
      cases heq
      exact ⟨[b], [], rfl, rfl, .of_two? htwo⟩
    · cases h

/-! ## Cuts between characters -/

/-- A malformed byte stays one when what follows is cut off and replaced by
something that does not start with a continuation byte. -/
theorem sequence?_eq_none {a : UInt8} {front bs bs' : Bytes}
    (h : sequence? a (front ++ bs) = none) (hbs' : ∀ b ∈ bs'.head?, ¬IsTail b) :
    sequence? a (front ++ bs') = none := by
  cases hfound : sequence? a (front ++ bs') with
  | none => rfl
  | some found =>
      exfalso
      obtain ⟨c, n⟩ := found
      obtain ⟨tail, rest, happend, -, hsequence⟩ := exists_isSequence hfound
      rcases List.append_eq_append_iff.mp happend with ⟨more, rfl, hmore⟩ | ⟨more, rfl, hmore⟩
      · cases more with
        | nil =>
            rw [List.append_nil] at hsequence
            rw [hsequence.found] at h
            cases h
        | cons b more =>
            rw [hmore] at hbs'
            exact hbs' b rfl (hsequence.tail b (by simp))
      · rw [List.append_assoc, hsequence.found] at h
        cases h

theorem runes_cons_of_isSequence {a : UInt8} {tail : Bytes} {c : Char}
    (h : IsSequence a tail c) (bs : Bytes) :
    runes (a :: (tail ++ bs)) = ⟨c, a :: tail⟩ :: runes bs := by
  rw [runes, runesFrom, h.found bs]
  simp only [runesFrom_append, List.take_left]
  rfl

theorem runes_cons_of_none {a : UInt8} {bs : Bytes} (h : sequence? a bs = none) :
    runes (a :: bs) = ⟨replacement, [a]⟩ :: runes bs := by
  rw [runes, runesFrom, h]
  rfl

/-- The first character of a byte string, and the bytes behind it. -/
theorem runes_cases (bs : Bytes) :
    bs = [] ∨
      (∃ a tail c rest, bs = a :: (tail ++ rest) ∧ IsSequence a tail c) ∨
      ∃ a rest, bs = a :: rest ∧ sequence? a rest = none := by
  cases bs with
  | nil => exact .inl rfl
  | cons a bs =>
      right
      cases hfound : sequence? a bs with
      | none => exact .inr ⟨a, bs, rfl, hfound⟩
      | some found =>
          obtain ⟨tail, rest, rfl, -, hsequence⟩ := exists_isSequence hfound
          exact .inl ⟨a, tail, found.1, rest, rfl, hsequence⟩

/-- Every byte belongs to one character. -/
theorem flatMap_bytes_runes (bs : Bytes) : (runes bs).flatMap (·.bytes) = bs := by
  induction hlength : bs.length using Nat.strongRecOn generalizing bs with
  | _ length ih =>
      obtain rfl | ⟨a, tail, c, rest, rfl, hsequence⟩ | ⟨a, rest, rfl, hnone⟩ := runes_cases bs
      · rfl
      · have hrest : rest.length < length := by
          rw [← hlength, List.length_cons, List.length_append]
          omega
        rw [runes_cons_of_isSequence hsequence, List.flatMap_cons, ih _ hrest rest rfl]
        rfl
      · have hrest : rest.length < length := by
          rw [← hlength, List.length_cons]
          omega
        rw [runes_cons_of_none hnone, List.flatMap_cons, ih _ hrest rest rfl]
        rfl

/-- The characters before a cut are found again in front of anything that does
not start with a continuation byte. -/
theorem runes_append {front : List Rune} {bs : Bytes} {back : List Rune}
    (h : runes (front.flatMap (·.bytes) ++ bs) = front ++ back) :
    runes bs = back ∧ ∀ bs' : Bytes, (∀ b ∈ bs'.head?, ¬IsTail b) →
      runes (front.flatMap (·.bytes) ++ bs') = front ++ runes bs' := by
  induction front with
  | nil => exact ⟨h, fun bs' _ => rfl⟩
  | cons r front ih =>
      rw [List.flatMap_cons, List.append_assoc] at h
      obtain hnil | ⟨a, tail, c, rest, hbytes, hsequence⟩ | ⟨a, rest, hbytes, hnone⟩ :=
        runes_cases (r.bytes ++ (front.flatMap (·.bytes) ++ bs))
      · rw [hnil] at h
        cases h
      · rw [hbytes, runes_cons_of_isSequence hsequence] at h
        obtain ⟨rfl, hrest⟩ := List.cons.inj h
        have hrest' : front.flatMap (·.bytes) ++ bs = rest := by
          simpa using hbytes
        rw [← hrest'] at hrest
        obtain ⟨hback, hfront⟩ := ih hrest
        refine ⟨hback, fun bs' hbs' => ?_⟩
        rw [List.flatMap_cons, List.append_assoc, List.cons_append,
          runes_cons_of_isSequence hsequence, hfront bs' hbs']
        rfl
      · rw [hbytes, runes_cons_of_none hnone] at h
        obtain ⟨rfl, hrest⟩ := List.cons.inj h
        have hrest' : front.flatMap (·.bytes) ++ bs = rest := by
          simpa using hbytes
        rw [← hrest'] at hrest hnone
        obtain ⟨hback, hfront⟩ := ih hrest
        refine ⟨hback, fun bs' hbs' => ?_⟩
        rw [List.flatMap_cons, List.append_assoc, List.singleton_append,
          runes_cons_of_none (sequence?_eq_none hnone hbs'), hfront bs' hbs']
        rfl

/-- No text starts with a continuation byte. -/
theorem not_isTail_of_mem_head?_encode {c : Char} (cs : List Char) (bs : Bytes) :
    ∀ b ∈ (encode (c :: cs) ++ bs).head?, ¬IsTail b := by
  obtain ⟨a, tail, hbytes, hfound⟩ := exists_sequence? c
  obtain ⟨tail', -, -, -, hsequence⟩ := exists_isSequence (hfound [])
  have hencode : encode (c :: cs) = String.utf8EncodeChar c ++ encode cs := rfl
  intro b hb
  rw [hencode, hbytes] at hb
  cases hb
  exact hsequence.lead

/-- A text that is put between two characters is read as itself. -/
theorem decode_insertAt (bs : Bytes) (i : Nat) (cs : List Char) :
    decode (insertAt bs i cs) = (decode bs).take i ++ cs ++ (decode bs).drop i := by
  have hbytes := flatMap_bytes_runes bs
  rw [← List.take_append_drop i (runes bs), List.flatMap_append] at hbytes
  have hcut : runes (((runes bs).take i).flatMap (·.bytes) ++
      ((runes bs).drop i).flatMap (·.bytes)) = (runes bs).take i ++ (runes bs).drop i := by
    rw [hbytes, List.take_append_drop]
  obtain ⟨hback, hfront⟩ := runes_append hcut
  have hdecode : decode (((runes bs).drop i).flatMap (·.bytes)) = (decode bs).drop i := by
    rw [decode, hback, decode, List.map_drop]
  cases cs with
  | nil =>
      have hencode : encode [] = [] := rfl
      rw [insertAt, hencode, List.append_nil, hbytes, List.append_nil, List.take_append_drop]
  | cons c cs =>
      have hrunes := hfront _ (not_isTail_of_mem_head?_encode (c := c) cs
        (((runes bs).drop i).flatMap (·.bytes)))
      rw [insertAt, List.append_assoc, decode, hrunes, List.map_append, ← decode,
        decode_encode_append, hdecode, List.map_take, decode, List.append_assoc]

end LeastModel.Utf8
