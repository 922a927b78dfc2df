import LeastModel.Event.Rendering
import LeastModel.Proofs.RuneBoundaries

/-!
# Escape sequences

A colour sequence is the escape byte, a bracket, digits and an `m`.
`stripColours` removes every such sequence from a text, wherever it stands. A
piece of a coloured text *strips to* a piece of the plain one when this holds in
front of anything that follows (`StripsTo`), so the pieces of a wording are
compared one by one and put together again.

A text without the escape byte strips to itself, and so does a dyed one. No
number has it, and the escape character is read from no other byte.
-/

namespace LeastModel

namespace Text

/-! ## Texts without escape bytes -/

/-- The byte with which an escape sequence starts. -/
def escapeByte : UInt8 := 0x1B

/-- No escape sequence starts in the text. -/
def Unescaped (s : Bytes) : Prop := escapeByte ∉ s

instance (s : Bytes) : Decidable (Unescaped s) := inferInstanceAs (Decidable (escapeByte ∉ s))

theorem unescaped_append {s t : Bytes} : Unescaped (s ++ t) ↔ Unescaped s ∧ Unescaped t := by
  simp [Unescaped]

namespace Unescaped

variable {s t : Bytes}

theorem append (hs : Unescaped s) (ht : Unescaped t) : Unescaped (s ++ t) :=
  unescaped_append.mpr ⟨hs, ht⟩

theorem of_subset (ht : Unescaped t) (h : s ⊆ t) : Unescaped s := fun hmem => ht (h hmem)

theorem join {sep : Bytes} {pieces : List Bytes} (hsep : Unescaped sep)
    (hpieces : ∀ s ∈ pieces, Unescaped s) : Unescaped (Bytes.join sep pieces) := by
  rw [Bytes.join]
  induction pieces with
  | nil => exact List.not_mem_nil
  | cons s pieces ih =>
      obtain ⟨hs, hpieces⟩ := List.forall_mem_cons.mp hpieces
      cases pieces with
      | nil => simpa using hs
      | cons t pieces =>
          rw [List.intercalate_cons_cons]
          exact (hs.append hsep).append (ih hpieces)

/-- Only the escape character is written with the escape byte. -/
theorem encode {cs : List Char} (h : '\x1b' ∉ cs) : Unescaped (Utf8.encode cs) := by
  intro hmem
  obtain ⟨c, hc, hbyte⟩ := List.mem_flatMap.mp hmem
  obtain ⟨a, bs, hbytes, hfound⟩ := Utf8.exists_sequence? c
  obtain ⟨tail, rest, happend, hlength, hsequence⟩ := Utf8.exists_isSequence (hfound [])
  obtain ⟨rfl, -⟩ := List.append_inj happend hlength
  rw [hbytes] at hbyte
  rcases List.mem_cons.mp hbyte with ha | hbyte
  · have hone := hfound []
    rw [← ha, Utf8.sequence?_one (by decide)] at hone
    obtain ⟨rfl, -⟩ := Prod.mk.inj (Option.some.inj hone)
    exact h hc
  · exact absurd (hsequence.tail _ hbyte).1 (by decide)

theorem ofNat (n : Nat) : Unescaped (Bytes.ofNat n) := by
  refine encode fun hmem => ?_
  have hdigit := Nat.isDigit_of_mem_toDigits (by decide) (by decide) hmem
  exact absurd hdigit (by decide)

theorem ofInt (n : Int) : Unescaped (Bytes.ofInt n) := by
  cases n with
  | ofNat n => exact ofNat n
  | negSucc n => exact append (by decide) (ofNat (n + 1))

theorem grouped (n : Int) : Unescaped (Number.grouped n) := by
  have hgroup (k : Nat) (ds : List Char) (h : '\x1b' ∉ ds) : '\x1b' ∉ Number.groupFrom k ds := by
    fun_induction Number.groupFrom k ds with
    | case1 => exact h
    | case2 d ds ih => simp_all
    | case3 k d ds hk ih => simp_all
  have hnat (n : Nat) : Unescaped (Utf8.encode (Number.groupedNat n)) := by
    refine encode fun hmem => hgroup 0 _ ?_ (List.mem_reverse.mp hmem)
    intro hdigit
    have := Nat.isDigit_of_mem_toDigits (by decide) (by decide) (List.mem_reverse.mp hdigit)
    exact absurd this (by decide)
  cases n with
  | ofNat n => exact hnat n
  | negSucc n => exact append (by decide) (hnat (n + 1))

end Unescaped

/-! ## Texts read as characters -/

/-- Every character of a byte string has a sequence of its own or is put for a
malformed byte. -/
theorem forall_mem_runes
    {P : Utf8.Rune → Prop}
    (hsequence : ∀ a tail c, Utf8.IsSequence a tail c → P ⟨c, a :: tail⟩)
    (hmalformed : ∀ a, P ⟨Utf8.replacement, [a]⟩) (bs : Bytes) : ∀ r ∈ Utf8.runes bs, P r := by
  induction hlength : bs.length using Nat.strongRecOn generalizing bs with
  | _ length ih =>
      obtain rfl | ⟨a, tail, c, rest, rfl, hfound⟩ | ⟨a, rest, rfl, hnone⟩ := Utf8.runes_cases bs
      · exact fun r hr => absurd hr List.not_mem_nil
      · rw [Utf8.runes_cons_of_isSequence hfound]
        refine List.forall_mem_cons.mpr ⟨hsequence a tail c hfound, ih _ ?_ rest rfl⟩
        rw [← hlength, List.length_cons, List.length_append]
        omega
      · rw [Utf8.runes_cons_of_none hnone]
        refine List.forall_mem_cons.mpr ⟨hmalformed a, ih _ ?_ rest rfl⟩
        rw [← hlength, List.length_cons]
        omega

theorem toNat_ofNat {n : Nat} (h : n.isValidChar) : (Char.ofNat n).toNat = n := by
  rw [Char.ofNat, dif_pos h]
  rfl

theorem le_toNat_of_scalar? {least n : Nat} {c : Char} (h : Utf8.scalar? least n = some c) :
    least ≤ c.toNat := by
  rw [Utf8.scalar?] at h
  split at h
  · rename_i hvalid
    cases h
    rw [toNat_ofNat hvalid.2]
    exact hvalid.1
  · cases h

theorem le_toNat_of_two? {a b : UInt8} {c : Char} (h : Utf8.two? a b = some c) :
    0x80 ≤ c.toNat := by
  rw [Utf8.two?] at h
  split at h
  · obtain ⟨_, -, h⟩ := Option.bind_eq_some_iff.mp h
    exact le_toNat_of_scalar? h
  · cases h

theorem le_toNat_of_three? {a b b' : UInt8} {c : Char} (h : Utf8.three? a b b' = some c) :
    0x800 ≤ c.toNat := by
  rw [Utf8.three?] at h
  split at h
  · obtain ⟨_, -, h⟩ := Option.bind_eq_some_iff.mp h
    obtain ⟨_, -, h⟩ := Option.bind_eq_some_iff.mp h
    exact le_toNat_of_scalar? h
  · cases h

theorem le_toNat_of_four? {a b b' b'' : UInt8} {c : Char} (h : Utf8.four? a b b' b'' = some c) :
    0x10000 ≤ c.toNat := by
  rw [Utf8.four?] at h
  split at h
  · obtain ⟨_, -, h⟩ := Option.bind_eq_some_iff.mp h
    obtain ⟨_, -, h⟩ := Option.bind_eq_some_iff.mp h
    obtain ⟨_, -, h⟩ := Option.bind_eq_some_iff.mp h
    exact le_toNat_of_scalar? h
  · cases h

/-- A character that is read from more than one byte is not an ASCII one. -/
theorem le_toNat_of_sequence? {a : UInt8} {bs : Bytes} {c : Char} {n : Nat}
    (ha : ¬a.toNat < 0x80) (h : Utf8.sequence? a bs = some (c, n)) : 0x80 ≤ c.toNat := by
  have hcases : (∃ b, Utf8.two? a b = some c) ∨ (∃ b b', Utf8.three? a b b' = some c) ∨
      ∃ b b' b'', Utf8.four? a b b' b'' = some c := by
    unfold Utf8.sequence? at h
    rw [if_neg ha] at h
    split at h <;>
      simp only [Option.orElse_eq_orElse, Option.orElse_eq_or, Option.or_eq_some_iff,
        Option.map_eq_some_iff, Prod.mk.injEq, reduceCtorEq] at h <;>
      grind
  rcases hcases with ⟨_, htwo⟩ | ⟨_, _, hthree⟩ | ⟨_, _, _, hfour⟩
  · exact le_toNat_of_two? htwo
  · exact Nat.le_trans (by decide) (le_toNat_of_three? hthree)
  · exact Nat.le_trans (by decide) (le_toNat_of_four? hfour)

/-- Only the escape byte is read as the escape character. -/
theorem eq_escapeByte_of_isSequence {a : UInt8} {tail : Bytes}
    (h : Utf8.IsSequence a tail '\x1b') : a = escapeByte := by
  have hfound := h.found []
  by_cases ha : a.toNat < 0x80
  · rw [Utf8.sequence?_one ha] at hfound
    obtain ⟨hchar, -⟩ := Prod.mk.inj (Option.some.inj hfound)
    have hnumber := congrArg Char.toNat hchar
    rw [toNat_ofNat (Or.inl (by omega))] at hnumber
    exact UInt8.toNat_inj.mp hnumber
  · exact absurd (le_toNat_of_sequence? ha hfound) (by decide)

theorem Unescaped.not_mem_decode {bs : Bytes} (h : Unescaped bs) : '\x1b' ∉ Utf8.decode bs := by
  intro hmem
  obtain ⟨r, hr, hchar⟩ := List.mem_map.mp hmem
  have hbytes : r.char = '\x1b' → escapeByte ∈ r.bytes := by
    refine forall_mem_runes (P := fun r => r.char = '\x1b' → escapeByte ∈ r.bytes) ?_ ?_ bs r hr
    · rintro a tail c hfound rfl
      exact List.mem_cons.mpr (Or.inl (eq_escapeByte_of_isSequence hfound).symm)
    · exact fun _ hc => absurd hc (by decide : Utf8.replacement ≠ '\x1b')
  refine h ?_
  rw [← Utf8.flatMap_bytes_runes bs]
  exact List.mem_flatMap.mpr ⟨r, hr, hbytes hchar⟩

theorem unescaped_of_mem_fieldsFrom
    {current : Bytes} {rs : List Utf8.Rune} (hcurrent : Unescaped current)
    (hrs : ∀ r ∈ rs, Unescaped r.bytes) : ∀ s ∈ fieldsFrom current rs, Unescaped s := by
  fun_induction fieldsFrom current rs with
  | case1 current hempty => simp
  | case2 current hempty => simpa using hcurrent
  | case3 current r rs hblank hempty ih =>
      exact ih List.not_mem_nil (List.forall_mem_cons.mp hrs).2
  | case4 current r rs hblank hempty ih =>
      exact List.forall_mem_cons.mpr
        ⟨hcurrent, ih List.not_mem_nil (List.forall_mem_cons.mp hrs).2⟩
  | case5 current r rs hblank ih =>
      obtain ⟨hr, hrs⟩ := List.forall_mem_cons.mp hrs
      exact ih (hcurrent.append hr) hrs

theorem Unescaped.fields {bs : Bytes} (h : Unescaped bs) : ∀ s ∈ fields bs, Unescaped s := by
  refine unescaped_of_mem_fieldsFrom List.not_mem_nil fun r hr => h.of_subset fun b hb => ?_
  rw [← Utf8.flatMap_bytes_runes bs]
  exact List.mem_flatMap.mpr ⟨r, hr, hb⟩

/-! ## Removing colours -/

/-- Whether a byte is a decimal digit. -/
def isDecimal (b : UInt8) : Bool := 0x30 ≤ b && b ≤ 0x39

/-- The length of the colour sequence at the beginning of a text; zero if there
is none. -/
def colourLength : Bytes → Nat
  | a :: b :: rest =>
    let digits := rest.takeWhile isDecimal
    if a = escapeByte ∧ b = 0x5B ∧ digits ≠ [] ∧ (rest.drop digits.length).head? = some 0x6D then
      digits.length + 3
    else 0
  | _ => 0

/-- A text without its colour sequences, after passing over `skip` bytes. -/
def stripFrom : (skip : Nat) → Bytes → Bytes
  | _, [] => []
  | skip + 1, _ :: s => stripFrom skip s
  | 0, b :: s =>
    match colourLength (b :: s) with
    | 0 => b :: stripFrom 0 s
    | n + 1 => stripFrom n s

/-- A text without its colour sequences. -/
def stripColours (s : Bytes) : Bytes := stripFrom 0 s

/-- The coloured piece strips to the plain one, whatever follows. -/
def StripsTo (coloured plain : Bytes) : Prop :=
  ∀ rest, stripColours (coloured ++ rest) = plain ++ stripColours rest

theorem stripsTo_colour (c : Colour) : StripsTo (escape c.code) [] := by
  intro rest
  cases c <;> rfl

theorem stripsTo_reset : StripsTo (escape 0) [] := fun _ => rfl

namespace StripsTo

variable {s t s' t' : Bytes}

theorem append (h : StripsTo s t) (h' : StripsTo s' t') : StripsTo (s ++ s') (t ++ t') := by
  intro rest
  rw [List.append_assoc, h, h', List.append_assoc]

/-- A text without escape bytes strips to itself. -/
theorem refl (h : Unescaped s) : StripsTo s s := by
  intro rest
  induction s with
  | nil => rfl
  | cons b s ih =>
      obtain ⟨hb, hs⟩ := not_or.mp (mt List.mem_cons.mpr h)
      have hlength : colourLength (b :: s ++ rest) = 0 := by
        cases hsrest : s ++ rest with
        | nil => simp [hsrest, colourLength]
        | cons b' s' => simp [hsrest, colourLength, Ne.symm hb]
      rw [stripColours, List.cons_append, stripFrom]
      rw [List.cons_append] at hlength
      rw [hlength]
      exact congrArg (b :: ·) (ih hs)

theorem literal (s : String) (h : Unescaped (Bytes.ofString s) := by decide) :
    StripsTo (Bytes.ofString s) (Bytes.ofString s) := refl h

theorem dye (c : Colour) (h : Unescaped s) : StripsTo (c.dye s) s := by
  have hdyed := ((stripsTo_colour c).append (refl h)).append stripsTo_reset
  rwa [List.nil_append, List.append_nil] at hdyed

theorem paint (c : Colour) (h : Unescaped s) :
    StripsTo (Text.paint true c s) (Text.paint false c s) := dye c h

theorem ite {p : Prop} [Decidable p] (h : p → StripsTo s t) (h' : ¬p → StripsTo s' t') :
    StripsTo (if p then s else s') (if p then t else t') := by
  split
  · exact h ‹_›
  · exact h' ‹_›

theorem join {α : Type} {sep : Bytes} {f g : α → Bytes} {xs : List α} (hsep : Unescaped sep)
    (h : ∀ x ∈ xs, StripsTo (f x) (g x)) :
    StripsTo (Bytes.join sep (xs.map f)) (Bytes.join sep (xs.map g)) := by
  simp only [Bytes.join]
  induction xs with
  | nil => exact refl List.not_mem_nil
  | cons x xs ih =>
      obtain ⟨hx, hxs⟩ := List.forall_mem_cons.mp h
      cases xs with
      | nil => simpa using hx
      | cons y ys =>
          rw [List.map_cons, List.map_cons, List.map_cons, List.map_cons,
            List.intercalate_cons_cons, List.intercalate_cons_cons]
          exact (hx.append (refl hsep)).append (ih hxs)

theorem eq (h : StripsTo s t) : stripColours s = t := by
  have hnil := h []
  rwa [List.append_nil, show stripColours [] = [] from rfl, List.append_nil] at hnil

end StripsTo

end Text

end LeastModel
