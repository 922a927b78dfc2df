import LeastModel.Proofs.Reports

/-!
# Reports that cannot be written to the end

A report is written piece by piece, and it ends with the first piece that is
refused: the cause is that of this piece, and the writer is left as the refusal
left it, since nothing more is handed to it (`run_forM_eq_error_iff`). A sink that
refuses the `k`-th piece has the pieces before it, which are those of the whole
report.

## Main statement

`Report.write_stopsAtRefusal`: which pieces a report has, how many there are, and
what is left of it in a sink, or in any writer, that refuses one of them.
-/

namespace LeastModel

/-! ## Loops that may fail -/

section

variable {α ε σ : Type} {out : α → ExceptT ε (StateM σ) Unit} {s s' : σ} {e : ε}

/-- A loop ends with its first step if that fails, and goes on from where it leads if not. -/
theorem run_forM_cons (x : α) (xs : List α) :
    ((x :: xs).forM out).run.run s =
      match (out x).run.run s with
      | (.error e, mid) => (.error e, mid)
      | (.ok _, mid) => (xs.forM out).run.run mid := by
  have hrun : ((x :: xs).forM out).run.run s =
      (ExceptT.bindCont (fun _ => xs.forM out) ((out x).run.run s).1).run
        ((out x).run.run s).2 := rfl
  rw [hrun]
  rcases (out x).run.run s with ⟨fault | ⟨⟩, mid⟩
  · rfl
  · rfl

/-- A loop fails with the first step that fails, and nothing is done after it. -/
theorem run_forM_eq_error_iff {xs : List α} :
    (xs.forM out).run.run s = (.error e, s') ↔
      ∃ before x after mid, xs = before ++ x :: after ∧
        (before.forM out).run.run s = (.ok (), mid) ∧ (out x).run.run mid = (.error e, s') := by
  induction xs generalizing s with
  | nil =>
      constructor
      · intro h
        exact nomatch congrArg Prod.fst h
      · rintro ⟨before, x, after, mid, h, -⟩
        simp at h
  | cons y ys ih =>
      rw [run_forM_cons]
      constructor
      · intro h
        rcases hy : (out y).run.run s with ⟨fault | ⟨⟩, mid⟩
        · rw [hy] at h
          exact ⟨[], y, ys, s, rfl, rfl, hy.trans h⟩
        · rw [hy] at h
          obtain ⟨before, x, after, mid', rfl, hbefore, hx⟩ := ih.mp h
          refine ⟨y :: before, x, after, mid', rfl, ?_, hx⟩
          rw [run_forM_cons, hy]
          exact hbefore
      · rintro ⟨before, x, after, mid, hsplit, hbefore, hx⟩
        cases before with
        | nil =>
            obtain ⟨rfl, rfl⟩ := List.cons.inj hsplit
            obtain rfl : s = mid := congrArg Prod.snd hbefore
            rw [hx]
        | cons z before =>
            obtain ⟨rfl, rfl⟩ := List.cons.inj hsplit
            rw [run_forM_cons] at hbefore
            rcases hy : (out y).run.run s with ⟨fault | ⟨⟩, mid'⟩
            · rw [hy] at hbefore
              exact nomatch congrArg Prod.fst hbefore
            · rw [hy] at hbefore
              exact ih.mpr ⟨before, x, after, mid, rfl, hbefore, hx⟩

end

/-- What a sink that takes `n` more pieces makes of any number of them. -/
theorem Sink.run_forM_write_limited (pieces : List Bytes) (written : Array Bytes) (n : Nat) :
    (pieces.forM Sink.write).run.run ⟨written, some n⟩ =
      if pieces.length ≤ n then (.ok (), ⟨written ++ pieces.toArray, some (n - pieces.length)⟩)
      else (.error ⟨⟩, ⟨written ++ (pieces.take n).toArray, some 0⟩) := by
  induction pieces generalizing written n with
  | nil =>
      rw [List.length_nil, if_pos (Nat.zero_le n), Array.append_empty]
      rfl
  | cons piece pieces ih =>
      cases n with
      | zero =>
          rw [List.length_cons, if_neg (Nat.not_succ_le_zero _), List.take_zero, Array.append_empty]
          rfl
      | succ n =>
          have hrun : ((piece :: pieces).forM Sink.write).run.run ⟨written, some (n + 1)⟩ =
              (pieces.forM Sink.write).run.run ⟨written.push piece, some n⟩ := rfl
          rw [hrun, ih]
          simp

theorem Sink.failingAt_of_pos {k : Nat} (hk : 1 ≤ k) : failingAt k = ⟨#[], some (k - 1)⟩ := by
  rw [failingAt, if_neg (by omega)]

namespace Report

variable {digest : Digest}

/-! ## The pieces of a report -/

/-- How many pieces follow the header of an entry: one for every tuple under its attributes, or
one for the table of all tuples. -/
def detailCount (style : AnswerStyle) (e : Entry digest) : Nat :=
  match e.relation with
  | none => 0
  | some r =>
    match style with
    | .text => if r.arity = 0 then 0 else r.size
    | .table => if r.isEmpty then 0 else 1

theorem length_details (layout : Table.Layout) (style : AnswerStyle) (e : Entry digest) :
    (details layout style e).length = detailCount style e := by
  obtain ⟨query, relation⟩ := e
  cases relation with
  | none => cases style <;> rfl
  | some r =>
      cases style with
      | text =>
          dsimp only [details, bindingLines, detailCount]
          split
          · rfl
          · rw [List.length_map, Relation.sorted, List.length_mergeSort, r.size_eq_length]
      | table =>
          dsimp only [details, tableLines, detailCount]
          split
          · rfl
          · rfl

theorem length_pieces (layout : Table.Layout) (coloured : Bool) (style : AnswerStyle)
    (entries : List (Entry digest)) :
    (pieces layout coloured style entries).length =
      entries.length + Number.total (entries.map (detailCount style)) := by
  induction entries with
  | nil => rfl
  | cons e entries ih =>
      rw [pieces] at ih ⊢
      rw [List.flatMap_cons, List.length_append, ih, List.length_cons, length_details,
        List.map_cons, Number.total_cons, List.length_cons]
      omega

/-! ## Reports that are cut short -/

/-- How a report with the given pieces is written to what may refuse them. -/
structure StopsAtRefusal (layout : Table.Layout) (coloured : Bool) (style : AnswerStyle)
    (entries : List (Entry digest)) (full : List Bytes) : Prop where
  /-- They are what a sink takes that never fails. -/
  whole : (write Sink.write layout coloured style entries).run.run .reliable =
    (.ok (), ⟨full.toArray, none⟩)
  /-- There is one for every entry, and those that follow its header. -/
  count : full.length = entries.length + Number.total (entries.map (detailCount style))
  /-- A sink that would fail later takes all of them. -/
  uncut : ∀ k, full.length < k → ∃ left,
    (write Sink.write layout coloured style entries).run.run (.failingAt k) =
      (.ok (), ⟨full.toArray, some left⟩)
  /-- A sink that fails at one of them has those before it. -/
  cut : ∀ k, 1 ≤ k → k ≤ full.length →
    (write Sink.write layout coloured style entries).run.run (.failingAt k) =
      (.error ⟨⟩, ⟨(full.take (k - 1)).toArray, some 0⟩)
  /-- Writing to anything fails just when one of the pieces is refused after those before it were
  taken, with the same cause, and nothing is done to the writer after that. -/
  refused : ∀ {ε σ : Type} (out : Bytes → ExceptT ε (StateM σ) Unit) (s s' : σ) (e : ε),
    (write out layout coloured style entries).run.run s = (.error e, s') ↔
      ∃ before piece after mid, full = before ++ piece :: after ∧
        (before.forM out).run.run s = (.ok (), mid) ∧ (out piece).run.run mid = (.error e, s')

/-- However tables are laid out, a report ends with the first piece that is refused. -/
theorem write_stopsAtRefusal (layout : Table.Layout) (coloured : Bool) (style : AnswerStyle)
    (entries : List (Entry digest)) :
    ∃ full, StopsAtRefusal layout coloured style entries full := by
  refine ⟨pieces layout coloured style entries, ?_⟩
  constructor
  case whole => exact run_write_reliable layout coloured style entries
  case count => exact length_pieces layout coloured style entries
  case uncut =>
    intro k hk
    refine ⟨k - 1 - (pieces layout coloured style entries).length, ?_⟩
    rw [write_eq_forM, Sink.failingAt_of_pos (by omega), Sink.run_forM_write_limited,
      if_pos (by omega), Array.empty_append]
  case cut =>
    intro k hk hle
    rw [write_eq_forM, Sink.failingAt_of_pos hk, Sink.run_forM_write_limited,
      if_neg (by omega), Array.empty_append]
  case refused =>
    intro ε σ out s s' e
    rw [write_eq_forM]
    exact run_forM_eq_error_iff

end Report

end LeastModel
