import LeastModel.Proofs.Codec

/-!
# Decoding damaged values

Nothing is known of the bytes of a damaged value. Whatever they are, a reader
gives back an end of them, and what it has read is, when it is written again, no
longer than what it has taken (`Codec.Spans`): a number may be written with more
digits than it needs, never with fewer.

A decoder can also be told as a sequence of reads that goes on when one of them
has failed (`Codec.Decoding`). Such a run takes bytes only after it has made sure
that they are there, and a read after a failure leaves everything as it is
(`Codec.Follows`); its outcome is that of the readers.

## Main statement

`Store.decode_isSafe`: decoding a tuple or a header takes only bytes that are
there, and gives a fault of the stored bytes or a value that is written in no
more bytes; after the first read that fails, no read changes anything.
-/

namespace LeastModel

namespace Codec

variable {α β : Type}

/-! ## What a reader takes -/

/-- A reader gives back an end of the bytes, and what it has read is not longer
when it is written than what it has taken. -/
def Spans (read? : Bytes → Option (α × Bytes)) (write : α → Bytes) : Prop :=
  ∀ {bs : Bytes} {x : α} {rest : Bytes}, read? bs = some (x, rest) →
    rest <:+ bs ∧ (write x).length + rest.length ≤ bs.length

/-- A digit in front of a number makes it at most one digit longer. -/
theorem length_uvarint_cons_le (low high : Nat) (hlow : low < 128) :
    (uvarint (low + 128 * high)).length ≤ (uvarint high).length + 1 := by
  rw [uvarint]
  split
  · exact Nat.le_add_left _ _
  · have hhigh : (low + 128 * high) / 128 = high := by omega
    exact Nat.le_of_eq (by rw [List.length_cons, hhigh])

theorem spans_readDigits (room : Nat) : Spans (readDigits? room) uvarint := by
  intro bs n rest h
  induction room generalizing bs n with
  | zero => simp [readDigits?] at h
  | succ room ih =>
      cases bs with
      | nil => simp [readDigits?] at h
      | cons b bs =>
          rw [readDigits?] at h
          split at h
          · rename_i hsmall
            split at h
            · cases h
            · obtain ⟨rfl, rfl⟩ := Prod.mk.inj (Option.some.inj h)
              rw [uvarint, if_pos hsmall]
              exact ⟨List.suffix_cons b bs, by simp [Nat.add_comm]⟩
          · rename_i hlarge
            obtain ⟨⟨high, rest'⟩, hread, h⟩ := Option.bind_eq_some_iff.mp h
            obtain ⟨rfl, rfl⟩ := Prod.mk.inj (Option.some.inj h)
            obtain ⟨hsuffix, hlength⟩ := ih hread
            have hb := b.toNat_lt
            have hlonger := length_uvarint_cons_le (b.toNat - 128) high (by omega)
            exact ⟨hsuffix.trans (List.suffix_cons b bs), by rw [List.length_cons]; omega⟩

theorem spans_readUvarint : Spans readUvarint? uvarint := spans_readDigits 10

theorem spans_readByte : Spans readByte? fun b => [b] := by
  intro bs b rest h
  cases bs with
  | nil => exact nomatch h
  | cons c bs =>
      obtain ⟨rfl, rfl⟩ := Prod.mk.inj (Option.some.inj h)
      exact ⟨List.suffix_cons _ _, by simp [Nat.add_comm]⟩

theorem spans_readCounted : Spans readCounted? counted := by
  intro bs x rest h
  obtain ⟨⟨n, behind⟩, hread, h⟩ := Option.bind_eq_some_iff.mp h
  obtain ⟨hsuffix, hlength⟩ := spans_readUvarint hread
  dsimp only at h
  split at h
  · exact nomatch h
  · rename_i hroom
    obtain ⟨rfl, rfl⟩ := Prod.mk.inj (Option.some.inj h)
    refine ⟨(List.drop_suffix n behind).trans hsuffix, ?_⟩
    rw [counted, List.length_append, List.length_take, List.length_drop, Nat.min_eq_left (by omega)]
    omega

/-- Items that are read one after another. -/
theorem spans_readMany {item? : Bytes → Option (α × Bytes)} {write : α → Bytes}
    (hitem : Spans item? write) (n : Nat) :
    Spans (readMany? item? n) (List.flatMap write) := by
  intro bs xs rest h
  induction n generalizing bs xs with
  | zero =>
      obtain ⟨rfl, rfl⟩ := Prod.mk.inj (Option.some.inj h)
      exact ⟨List.suffix_rfl, by simp⟩
  | succ n ih =>
      obtain ⟨⟨x, behind⟩, hread, h⟩ := Option.bind_eq_some_iff.mp h
      obtain ⟨⟨ys, rest'⟩, hmore, h⟩ := Option.bind_eq_some_iff.mp h
      obtain ⟨rfl, rfl⟩ := Prod.mk.inj (Option.some.inj h)
      obtain ⟨hsuffix, hlength⟩ := hitem hread
      obtain ⟨hsuffix', hlength'⟩ := ih hmore
      refine ⟨hsuffix'.trans hsuffix, ?_⟩
      rw [List.flatMap_cons, List.length_append]
      omega

theorem length_of_readMany {item? : Bytes → Option (α × Bytes)} {n : Nat} {bs rest : Bytes}
    {xs : List α} (h : readMany? item? n bs = some (xs, rest)) : xs.length = n := by
  induction n generalizing bs xs rest with
  | zero =>
      obtain ⟨rfl, -⟩ := Prod.mk.inj (Option.some.inj h)
      rfl
  | succ n ih =>
      obtain ⟨⟨x, behind⟩, -, h⟩ := Option.bind_eq_some_iff.mp h
      obtain ⟨⟨ys, rest'⟩, hmore, h⟩ := Option.bind_eq_some_iff.mp h
      obtain ⟨rfl, -⟩ := Prod.mk.inj (Option.some.inj h)
      rw [List.length_cons, ih hmore]

theorem spans_readList {item? : Bytes → Option (α × Bytes)} {write : α → Bytes}
    (hitem : Spans item? write) :
    Spans (readList? item?) fun xs => uvarint xs.length ++ xs.flatMap write := by
  intro bs xs rest h
  obtain ⟨⟨n, behind⟩, hread, h⟩ := Option.bind_eq_some_iff.mp h
  obtain ⟨hsuffix, hlength⟩ := spans_readUvarint hread
  dsimp only at h
  split at h
  · exact nomatch h
  · obtain ⟨hsuffix', hlength'⟩ := spans_readMany hitem n h
    refine ⟨hsuffix'.trans hsuffix, ?_⟩
    dsimp only
    rw [List.length_append, length_of_readMany h]
    omega

theorem spans_readCountedList : Spans readCountedList? countedList :=
  spans_readList spans_readCounted

/-! ## Reads that go on after a failure -/

/-- A decoder at work: the bytes it has not read, and whether a read has failed. -/
structure Decoder where
  rest : Bytes
  failed : Bool

/-- A decoder before its first read. -/
def Decoder.start (bs : Bytes) : Decoder := ⟨bs, false⟩

/-- Reads one after another. Those that reach for a byte that is not there have
no outcome. -/
abbrev Decoding (α : Type) := StateT Decoder Option α

namespace Decoding

/-- Takes the next `n` bytes, which must be there. -/
def take (n : Nat) : Decoding Bytes := fun d =>
  if n ≤ d.rest.length then some (d.rest.take n, { d with rest := d.rest.drop n }) else none

theorem run_take {n : Nat} {bs : Bytes} (h : n ≤ bs.length) (failed : Bool) :
    (take n).run ⟨bs, failed⟩ = some (bs.take n, ⟨bs.drop n, failed⟩) :=
  if_pos h

/-- Notes that a read has failed. -/
def fail : Decoding Unit := modify fun d => { d with failed := true }

@[simp] theorem run_fail (d : Decoder) : fail.run d = some ((), { d with failed := true }) := rfl

/-- Notes a failure when there are fewer than `n` bytes. -/
def require (n : Nat) : Decoding Unit := do
  if (← get).rest.length < n then fail

theorem run_require (n : Nat) (d : Decoder) :
    (require n).run d =
      some ((), { d with failed := d.failed || decide (d.rest.length < n) }) := by
  by_cases hn : d.rest.length < n
  · simp [require, hn]
  · simp [require, hn]

/-- Does nothing but give `x` once a read has failed. -/
def unlessFailed (x : α) (read : Decoding α) : Decoding α := do
  if (← get).failed then return x else read

/-- Reads a number. -/
def number : Decoding Nat := unlessFailed 0 do
  let d ← get
  match readUvarint? d.rest with
  | none => do
    fail
    return 0
  | some (n, behind) => do
    let _ ← take (d.rest.length - behind.length)
    return n

/-- Reads a byte. -/
def byte : Decoding UInt8 := unlessFailed 0 do
  if (← get).rest.isEmpty then
    fail
    return 0
  else
    let taken ← take 1
    return taken.headD 0

/-- Reads `n` bytes. -/
def bytes (n : Nat) : Decoding Bytes := unlessFailed [] do
  if (← get).rest.length < n then
    fail
    return []
  else take n

/-- Reads a counted byte string. -/
def string : Decoding Bytes := do
  let n ← number
  bytes n

/-- Reads `n` items, unless one of them fails. -/
def many (item : Decoding α) : (n : Nat) → Decoding (List α)
  | 0 => return []
  | n + 1 => unlessFailed [] do
    let x ← item
    let xs ← many item n
    return x :: xs

/-- Reads a counted list, of at most as many items as there are bytes. -/
def list (item : Decoding α) : Decoding (List α) := do
  let n ← number
  require n
  many item n

end Decoding

/-- Whatever the bytes are, the reads take only bytes that are there, and they have the
outcome that is given. -/
def Yields (read : Decoding α) (bs : Bytes) (outcome : Option (α × Bytes)) : Prop :=
  ∃ x d, read.run (.start bs) = some (x, d) ∧ d.rest <:+ bs ∧
    outcome = if d.failed then none else some (x, d.rest)

/-- Reads that have the outcomes of a reader, and do nothing after a failure. -/
structure Follows (read : Decoding α) (read? : Bytes → Option (α × Bytes)) : Prop where
  sound : ∀ bs, Yields read bs (read? bs)
  sticky : ∀ d : Decoder, d.failed = true → ∃ x, read.run d = some (x, d)

namespace Follows

variable {read : Decoding α} {read? : Bytes → Option (α × Bytes)}

theorem pure (x : α) : Follows (Pure.pure x) fun bs => some (x, bs) where
  sound bs := ⟨x, .start bs, rfl, List.suffix_rfl, rfl⟩
  sticky _ _ := ⟨x, rfl⟩

/-- One read after another. -/
theorem bind {next : α → Decoding β} {next? : α → Bytes → Option (β × Bytes)}
    (hread : Follows read read?) (hnext : ∀ x, Follows (next x) (next? x)) :
    Follows (read >>= next) fun bs => (read? bs).bind fun (x, rest) => next? x rest where
  sound bs := by
    obtain ⟨x, ⟨rest, failed⟩, hrun, hsuffix, houtcome⟩ := hread.sound bs
    have hbind : (read >>= next).run (.start bs) = (next x).run ⟨rest, failed⟩ := by
      rw [StateT.run_bind, hrun]
      rfl
    rw [houtcome]
    cases failed with
    | true =>
        obtain ⟨y, hskip⟩ := (hnext x).sticky ⟨rest, true⟩ rfl
        exact ⟨y, ⟨rest, true⟩, hbind.trans hskip, hsuffix, rfl⟩
    | false =>
        obtain ⟨y, d, hrun', hsuffix', houtcome'⟩ := (hnext x).sound rest
        exact ⟨y, d, hbind.trans hrun', hsuffix'.trans hsuffix, houtcome'⟩
  sticky d hfailed := by
    obtain ⟨x, hskip⟩ := hread.sticky d hfailed
    obtain ⟨y, hskip'⟩ := (hnext x).sticky d hfailed
    refine ⟨y, ?_⟩
    rw [StateT.run_bind, hskip]
    exact hskip'

/-- A read that is left out after a failure need not take care of it. -/
theorem unlessFailed {x : α} (h : ∀ bs, Yields read bs (read? bs)) :
    Follows (.unlessFailed x read) read? where
  sound := h
  sticky
    | ⟨_, true⟩, _ => ⟨x, rfl⟩

/-! ### The reads of a decoder -/

theorem number : Follows .number readUvarint? := by
  refine unlessFailed fun bs => ?_
  cases hread : readUvarint? bs with
  | none => exact ⟨0, ⟨bs, true⟩, by simp [Decoder.start, hread], List.suffix_rfl, rfl⟩
  | some read =>
      obtain ⟨n, behind⟩ := read
      have hsuffix := (spans_readUvarint hread).1
      have htake := Decoding.run_take (Nat.sub_le bs.length behind.length) false
      rw [← List.suffix_iff_eq_drop.mp hsuffix] at htake
      exact ⟨n, .start behind, by simp [Decoder.start, hread, htake], hsuffix, rfl⟩

theorem byte : Follows .byte readByte? := by
  refine unlessFailed fun bs => ?_
  cases bs with
  | nil => exact ⟨0, ⟨[], true⟩, rfl, List.suffix_rfl, rfl⟩
  | cons b bs => exact ⟨b, .start bs, rfl, List.suffix_cons b bs, rfl⟩

theorem require (n : Nat) :
    Follows (.require n) fun bs => if bs.length < n then none else some ((), bs) where
  sound bs := by
    refine ⟨(), _, Decoding.run_require n _, List.suffix_rfl, ?_⟩
    by_cases hn : bs.length < n
    · simp [Decoder.start, hn]
    · simp [Decoder.start, hn]
  sticky d hfailed := by
    refine ⟨(), (Decoding.run_require n d).trans ?_⟩
    rw [hfailed, Bool.true_or, ← hfailed]

theorem bytes (n : Nat) :
    Follows (.bytes n) fun bs =>
      if bs.length < n then none else some (bs.take n, bs.drop n) := by
  refine unlessFailed fun bs => ?_
  by_cases hn : bs.length < n
  · exact ⟨[], ⟨bs, true⟩, by simp [Decoder.start, hn], List.suffix_rfl, by simp [hn]⟩
  · have htake := Decoding.run_take (Nat.le_of_not_lt hn) false
    exact ⟨bs.take n, .start (bs.drop n), by simp [Decoder.start, hn, htake],
      List.drop_suffix n bs, by simp [Decoder.start, hn]⟩

theorem string : Follows .string readCounted? := number.bind bytes

theorem many (hread : Follows read read?) (n : Nat) :
    Follows (.many read n) (readMany? read? n) := by
  induction n with
  | zero => exact pure []
  | succ n ih =>
      exact unlessFailed (hread.bind fun x => ih.bind fun xs => pure (x :: xs)).sound

theorem list (hread : Follows read read?) : Follows (.list read) (readList? read?) := by
  have hlist := number.bind fun n => (require n).bind fun _ => hread.many n
  have hreader : readList? read? = fun bs => (readUvarint? bs).bind fun counted =>
      (if counted.2.length < counted.1 then none else some ((), counted.2)).bind fun checked =>
        readMany? read? counted.1 checked.2 := by
    funext bs
    rw [readList?, Option.bind_eq_bind]
    congr 1
    funext counted
    dsimp only
    split
    · rfl
    · rfl
  rw [hreader]
  exact hlist

end Follows

/-! ## Any reads in any order -/

/-- What reads make of a decoder: it is left with an end of what it had, and once a read has
failed it stays as it is. -/
structure Decoder.Becomes (d d' : Decoder) : Prop where
  suffix : d'.rest <:+ d.rest
  sticky : d.failed = true → d' = d

theorem Decoder.Becomes.refl (d : Decoder) : d.Becomes d := ⟨List.suffix_rfl, fun _ => rfl⟩

theorem Decoder.Becomes.trans {d mid d' : Decoder} (h : d.Becomes mid) (h' : mid.Becomes d') :
    d.Becomes d' where
  suffix := h'.suffix.trans h.suffix
  sticky hfailed := by
    have heq := h.sticky hfailed
    subst heq
    exact h'.sticky hfailed

theorem Follows.exists_becomes {read : Decoding α} {read? : Bytes → Option (α × Bytes)}
    (hread : Follows read read?) (d : Decoder) :
    ∃ d', (read.run d).map (·.2) = some d' ∧ d.Becomes d' := by
  obtain ⟨rest, failed⟩ := d
  cases failed with
  | true =>
      obtain ⟨x, hskip⟩ := hread.sticky ⟨rest, true⟩ rfl
      exact ⟨_, congrArg (Option.map (·.2)) hskip, .refl _⟩
  | false =>
      obtain ⟨x, d', hrun, hsuffix, -⟩ := hread.sound rest
      exact ⟨d', congrArg (Option.map (·.2)) hrun, hsuffix, fun hfailed => nomatch hfailed⟩

/-- What can be asked of a decoder. -/
inductive Read where
  | number
  | byte
  | string
  | strings

/-- The decoder after a read, if it has an outcome. -/
def Decoder.after? (d : Decoder) : Read → Option Decoder
  | .number => (Decoding.number.run d).map (·.2)
  | .byte => (Decoding.byte.run d).map (·.2)
  | .string => (Decoding.string.run d).map (·.2)
  | .strings => ((Decoding.list .string).run d).map (·.2)

theorem Decoder.exists_after (d : Decoder) (read : Read) :
    ∃ d', d.after? read = some d' ∧ d.Becomes d' := by
  cases read with
  | number => exact Follows.number.exists_becomes d
  | byte => exact Follows.byte.exists_becomes d
  | string => exact Follows.string.exists_becomes d
  | strings => exact (Follows.list .string).exists_becomes d

theorem Decoder.exists_afterAll (d : Decoder) (reads : List Read) :
    ∃ d', reads.foldlM Decoder.after? d = some d' ∧ d.Becomes d' := by
  induction reads generalizing d with
  | nil => exact ⟨d, rfl, .refl d⟩
  | cons read reads ih =>
      obtain ⟨mid, hmid, hbecomes⟩ := d.exists_after read
      obtain ⟨d', hd', hbecomes'⟩ := ih mid
      refine ⟨d', ?_, hbecomes.trans hbecomes'⟩
      rw [List.foldlM_cons, hmid]
      exact hd'

end Codec

namespace Store

open Codec

/-! ## Records -/

theorem spans_readTerm : Spans readTerm? encodeTerm := by
  intro bs t rest h
  obtain ⟨⟨code, behind⟩, hcode, h⟩ := Option.bind_eq_some_iff.mp h
  obtain ⟨⟨value, rest'⟩, hvalue, h⟩ := Option.bind_eq_some_iff.mp h
  obtain ⟨rfl, rfl⟩ := Prod.mk.inj (Option.some.inj h)
  obtain ⟨hsuffix, hlength⟩ := spans_readByte hcode
  obtain ⟨hsuffix', hlength'⟩ := spans_readCounted hvalue
  refine ⟨hsuffix'.trans hsuffix, ?_⟩
  rw [List.length_singleton] at hlength
  rw [encodeTerm, List.length_cons]
  dsimp only
  omega

theorem spans_readHeader : Spans readHeader? encodeHeader := by
  intro bs h rest hread
  obtain ⟨⟨queryName, rest₁⟩, hquery, hread⟩ := Option.bind_eq_some_iff.mp hread
  obtain ⟨⟨terms, rest₂⟩, hterms, hread⟩ := Option.bind_eq_some_iff.mp hread
  obtain ⟨⟨name, rest₃⟩, hname, hread⟩ := Option.bind_eq_some_iff.mp hread
  obtain ⟨⟨schema, rest₄⟩, hschema, hread⟩ := Option.bind_eq_some_iff.mp hread
  obtain ⟨rfl, rfl⟩ := Prod.mk.inj (Option.some.inj hread)
  obtain ⟨hsuffix₁, hlength₁⟩ := spans_readCounted hquery
  obtain ⟨hsuffix₂, hlength₂⟩ := spans_readList spans_readTerm hterms
  obtain ⟨hsuffix₃, hlength₃⟩ := spans_readCounted hname
  obtain ⟨hsuffix₄, hlength₄⟩ := spans_readCountedList hschema
  refine ⟨hsuffix₄.trans (hsuffix₃.trans (hsuffix₂.trans hsuffix₁)), ?_⟩
  simp only [encodeHeader, List.length_append] at hlength₂ ⊢
  omega

/-- Reads a tuple. -/
def tupleReads : Decoding Tuple := .list .string

/-- Reads a term. -/
def termReads : Decoding Term := do
  let code ← .byte
  let value ← .string
  return ⟨⟨code⟩, value⟩

/-- Reads a header. -/
def headerReads : Decoding Header := do
  let queryName ← .string
  let terms ← .list termReads
  let name ← .string
  let schema ← .list .string
  return ⟨⟨queryName, terms⟩, name, schema⟩

theorem follows_tupleReads : Follows tupleReads readCountedList? := .list .string

theorem follows_termReads : Follows termReads readTerm? :=
  Follows.byte.bind fun _ => Follows.string.bind fun _ => .pure _

theorem follows_headerReads : Follows headerReads readHeader? :=
  Follows.string.bind fun _ => (Follows.list follows_termReads).bind fun _ =>
    Follows.string.bind fun _ => (Follows.list .string).bind fun _ => .pure _

/-! ## Decoding any bytes -/

/-- How any bytes are decoded, as a value that `encode` writes. -/
structure DecodesSafely {α : Type} (reads : Decoding α) (decode : Bytes → Except StoreFault α)
    (encode : α → Bytes) (bs : Bytes) : Prop where
  /-- Only bytes that are there are taken, and the outcome is a value unless a read has failed. -/
  inside : ∃ x d, reads.run (.start bs) = some (x, d) ∧ d.rest <:+ bs ∧
    (d.failed = false → decode bs = .ok x) ∧
    (d.failed = true → ∃ fault, decode bs = .error fault)
  /-- A fault says that the stored bytes make no sense. -/
  fault : ∀ {e : StoreFault}, decode bs = .error e → e.isCorrupt = true
  /-- A value has no more bytes when it is written than it was read from. -/
  value : ∀ {x : α}, decode bs = .ok x → (encode x).length ≤ bs.length

section

variable {α : Type} {reads : Decoding α} {read? : Bytes → Option (α × Bytes)}
  {decode : Bytes → Except StoreFault α} {encode : α → Bytes} {corrupt : StoreFault}

theorem decodesSafely (hfollows : Follows reads read?) (hspans : Spans read? encode)
    (hsome : ∀ {bs x rest}, read? bs = some (x, rest) → decode bs = .ok x)
    (hnone : ∀ {bs}, read? bs = none → decode bs = .error corrupt)
    (hcorrupt : corrupt.isCorrupt = true) (bs : Bytes) : DecodesSafely reads decode encode bs where
  inside := by
    obtain ⟨x, d, hrun, hsuffix, houtcome⟩ := hfollows.sound bs
    refine ⟨x, d, hrun, hsuffix, fun hfailed => ?_, fun hfailed => ⟨corrupt, ?_⟩⟩
    · rw [hfailed] at houtcome
      exact hsome houtcome
    · rw [hfailed] at houtcome
      exact hnone houtcome
  fault h := by
    cases hread : read? bs with
    | none => exact Except.error.inj (h.symm.trans (hnone hread)) ▸ hcorrupt
    | some read => exact nomatch h.symm.trans (hsome hread)
  value h := by
    cases hread : read? bs with
    | none => exact nomatch h.symm.trans (hnone hread)
    | some read =>
        cases Except.ok.inj (h.symm.trans (hsome hread))
        exact Nat.le_trans (Nat.le_add_right _ _) (hspans hread).2

end

theorem decodeTuple_decodesSafely (bs : Bytes) :
    DecodesSafely tupleReads decodeTuple encodeTuple bs :=
  decodesSafely follows_tupleReads spans_readCountedList
    (fun hread => by rw [decodeTuple, hread]) (fun hread => by rw [decodeTuple, hread]) rfl bs

theorem decodeHeader_decodesSafely (bs : Bytes) :
    DecodesSafely headerReads decodeHeader encodeHeader bs :=
  decodesSafely follows_headerReads spans_readHeader
    (fun hread => by rw [decodeHeader, hread]) (fun hread => by rw [decodeHeader, hread]) rfl bs

/-- Tuples and headers are decoded from any bytes safely. Any reads, whichever
come first and whichever follow, take only bytes that are there, and once one has
failed those that follow change nothing. -/
theorem decode_isSafe (bs : Bytes) :
    DecodesSafely tupleReads decodeTuple encodeTuple bs ∧
    DecodesSafely headerReads decodeHeader encodeHeader bs ∧
    ∀ reads more : List Read, ∃ d d',
      reads.foldlM Decoder.after? (.start bs) = some d ∧ (Decoder.start bs).Becomes d ∧
      more.foldlM Decoder.after? d = some d' ∧ d.Becomes d' := by
  refine ⟨decodeTuple_decodesSafely bs, decodeHeader_decodesSafely bs, fun reads more => ?_⟩
  obtain ⟨d, hd, hbecomes⟩ := Decoder.exists_afterAll (.start bs) reads
  obtain ⟨d', hd', hbecomes'⟩ := d.exists_afterAll more
  exact ⟨d, d', hd, hbecomes, hd', hbecomes'⟩

end Store

end LeastModel
