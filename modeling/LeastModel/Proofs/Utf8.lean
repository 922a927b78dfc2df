import LeastModel.Text.Utf8

/-!
# Characters written and read back

A character is written as one to four bytes, and the first byte tells how many.
So wherever the bytes of a character stand at the beginning of a byte string, the
character is read from them and reading goes on behind them
(`runes_encodeChar`), and a text is read back from its bytes
(`decode_encode_append`).
-/

namespace LeastModel.Utf8

theorem encode_append (cs ds : List Char) : encode (cs ++ ds) = encode cs ++ encode ds :=
  List.flatMap_append

/-! ## One sequence -/

theorem tailBits?_ofNat {n : Nat} (h : n < 64) : tailBits? (UInt8.ofNat (n + 128)) = some n := by
  have htoNat : (UInt8.ofNat (n + 128)).toNat = n + 128 := by
    rw [UInt8.toNat_ofNat']
    omega
  rw [tailBits?, htoNat, if_pos (by omega), Nat.add_sub_cancel]

/-- The number of a character is a scalar value. -/
theorem scalar?_toNat {c : Char} {least : Nat} (h : least ≤ c.toNat) :
    scalar? least c.toNat = some c := by
  rw [scalar?, if_pos ⟨h, c.valid⟩, Char.ofNat_toNat]

theorem two?_eq {c : Char} (hlow : 0x80 ≤ c.toNat) (hhigh : c.toNat < 0x800) :
    two? (UInt8.ofNat (c.toNat / 64 % 32 + 192)) (UInt8.ofNat (c.toNat % 64 + 128)) = some c := by
  have hlead : (UInt8.ofNat (c.toNat / 64 % 32 + 192)).toNat = c.toNat / 64 + 192 := by
    rw [UInt8.toNat_ofNat']
    omega
  have hnumber : (c.toNat / 64 + 192 - 0xC0) * 64 + c.toNat % 64 = c.toNat := by omega
  rw [two?, hlead, if_pos (by omega), tailBits?_ofNat (by omega)]
  -- Binds are rewritten one by one: unfolding them would compare numbers in unary.
  rw [Option.bind_eq_bind, Option.bind_some, hnumber, scalar?_toNat hlow]

theorem three?_eq {c : Char} (hlow : 0x800 ≤ c.toNat) (hhigh : c.toNat < 0x10000) :
    three? (UInt8.ofNat (c.toNat / 4096 % 16 + 224)) (UInt8.ofNat (c.toNat / 64 % 64 + 128))
      (UInt8.ofNat (c.toNat % 64 + 128)) = some c := by
  have hlead : (UInt8.ofNat (c.toNat / 4096 % 16 + 224)).toNat = c.toNat / 4096 + 224 := by
    rw [UInt8.toNat_ofNat']
    omega
  have hnumber : (c.toNat / 4096 + 224 - 0xE0) * 4096 + c.toNat / 64 % 64 * 64 + c.toNat % 64 =
      c.toNat := by omega
  rw [three?, hlead, if_pos (by omega), tailBits?_ofNat (by omega), tailBits?_ofNat (by omega)]
  rw [Option.bind_eq_bind, Option.bind_some, Option.bind_some, hnumber, scalar?_toNat hlow]

theorem four?_eq {c : Char} (hlow : 0x10000 ≤ c.toNat) :
    four? (UInt8.ofNat (c.toNat / 262144 % 8 + 240)) (UInt8.ofNat (c.toNat / 4096 % 64 + 128))
      (UInt8.ofNat (c.toNat / 64 % 64 + 128)) (UInt8.ofNat (c.toNat % 64 + 128)) = some c := by
  have hhigh : c.toNat < 0x110000 := by
    rcases c.valid with hvalid | ⟨-, hvalid⟩
    · exact Nat.lt_trans hvalid (by decide)
    · exact hvalid
  have hlead : (UInt8.ofNat (c.toNat / 262144 % 8 + 240)).toNat = c.toNat / 262144 + 240 := by
    rw [UInt8.toNat_ofNat']
    omega
  have hnumber : (c.toNat / 262144 + 240 - 0xF0) * 262144 + c.toNat / 4096 % 64 * 4096 +
      c.toNat / 64 % 64 * 64 + c.toNat % 64 = c.toNat := by omega
  rw [four?, hlead, if_pos (by omega), tailBits?_ofNat (by omega), tailBits?_ofNat (by omega),
    tailBits?_ofNat (by omega)]
  rw [Option.bind_eq_bind, Option.bind_some, Option.bind_some, Option.bind_some, hnumber,
    scalar?_toNat hlow]

theorem sequence?_one {a : UInt8} (ha : a.toNat < 0x80) (rest : Bytes) :
    sequence? a rest = some (Char.ofNat a.toNat, 0) := by
  unfold sequence?
  rw [if_pos ha]

theorem sequence?_two {a b : UInt8} {c : Char} (ha : ¬a.toNat < 0x80) (h : two? a b = some c)
    (rest : Bytes) : sequence? a (b :: rest) = some (c, 1) := by
  unfold sequence?
  rw [if_neg ha]
  match rest with
  | [] => simp [h]
  | [_] => simp [h]
  | _ :: _ :: _ => simp [h]

theorem sequence?_three {a b b' : UInt8} {c : Char} (ha : 0xE0 ≤ a.toNat)
    (h : three? a b b' = some c) (rest : Bytes) : sequence? a (b :: b' :: rest) = some (c, 2) := by
  have htwo : two? a b = none := by rw [two?, if_neg (by omega)]
  unfold sequence?
  rw [if_neg (by omega)]
  match rest with
  | [] => simp [htwo, h]
  | _ :: _ => simp [htwo, h]

theorem sequence?_four {a b b' b'' : UInt8} {c : Char} (ha : 0xF0 ≤ a.toNat)
    (h : four? a b b' b'' = some c) (rest : Bytes) :
    sequence? a (b :: b' :: b'' :: rest) = some (c, 3) := by
  have htwo : two? a b = none := by rw [two?, if_neg (by omega)]
  have hthree : three? a b b' = none := by rw [three?, if_neg (by omega)]
  unfold sequence?
  rw [if_neg (by omega)]
  simp [htwo, hthree, h]

/-- The bytes of a character are a sequence, whatever follows them. -/
theorem exists_sequence? (c : Char) :
    ∃ b bs, String.utf8EncodeChar c = b :: bs ∧
      ∀ rest, sequence? b (bs ++ rest) = some (c, bs.length) := by
  have hval : c.val.toNat = c.toNat := rfl
  unfold String.utf8EncodeChar
  simp only [hval]
  by_cases hone : c.toNat ≤ 0x7F
  · rw [if_pos hone]
    refine ⟨_, _, rfl, fun rest => ?_⟩
    have hbyte : (UInt8.ofNat c.toNat).toNat = c.toNat := by
      rw [UInt8.toNat_ofNat']
      omega
    rw [sequence?_one (by omega), hbyte, Char.ofNat_toNat]
    rfl
  rw [if_neg hone]
  by_cases htwo : c.toNat ≤ 0x7FF
  · rw [if_pos htwo]
    refine ⟨_, _, rfl, fun rest => sequence?_two ?_ (two?_eq (by omega) (by omega)) rest⟩
    rw [UInt8.toNat_ofNat']
    omega
  rw [if_neg htwo]
  by_cases hthree : c.toNat ≤ 0xFFFF
  · rw [if_pos hthree]
    refine ⟨_, _, rfl, fun rest => sequence?_three ?_ (three?_eq (by omega) (by omega)) rest⟩
    rw [UInt8.toNat_ofNat']
    omega
  · rw [if_neg hthree]
    refine ⟨_, _, rfl, fun rest => sequence?_four ?_ (four?_eq (by omega)) rest⟩
    rw [UInt8.toNat_ofNat']
    omega

/-! ## Texts -/

theorem runesFrom_append (bs rest : Bytes) :
    runesFrom bs.length (bs ++ rest) = runesFrom 0 rest := by
  induction bs with
  | nil => rfl
  | cons b bs ih => exact ih

theorem runes_encodeChar (c : Char) (rest : Bytes) :
    ∃ bs, runes (String.utf8EncodeChar c ++ rest) = ⟨c, bs⟩ :: runes rest := by
  obtain ⟨b, bs, hbytes, hsequence⟩ := exists_sequence? c
  refine ⟨b :: (bs ++ rest).take bs.length, ?_⟩
  rw [hbytes, List.cons_append, runes, runesFrom, hsequence rest, runes]
  simp only [runesFrom_append]

/-- A text is read back from its bytes, in front of whatever follows them. -/
theorem decode_encode_append (cs : List Char) (bs : Bytes) :
    decode (encode cs ++ bs) = cs ++ decode bs := by
  induction cs with
  | nil => rfl
  | cons c cs ih =>
      obtain ⟨bytes, hrunes⟩ := runes_encodeChar c (encode cs ++ bs)
      have hencode : encode (c :: cs) ++ bs = String.utf8EncodeChar c ++ (encode cs ++ bs) := by
        rw [← List.append_assoc]
        rfl
      rw [decode, hencode, hrunes, List.map_cons, List.cons_append]
      exact congrArg (c :: ·) ih

/-- A text is read back from its bytes. -/
theorem decode_encode (cs : List Char) : decode (encode cs) = cs := by
  have hdecode := decode_encode_append cs []
  rwa [List.append_nil, show decode [] = [] from rfl, List.append_nil] at hdecode

end LeastModel.Utf8
