import LeastModel.Answer.Report
import LeastModel.Proofs.Loading
import LeastModel.Proofs.StoreRoundTrip

/-!
# What a report depends on

A report is a list of pieces, written one after another (`Report.write_eq_forM`).
The tuples of a relation are shown in ascending order, and this order is linear,
so that it does not matter in which order they were found: answers that are the
same as sets of tuples have the same report (`Report.pieces_eq_of_sameAs`), however
tables are laid out.
-/

namespace LeastModel

/-! ## The order of tuples -/

namespace Tuple

/-- Tuples are compared value by value, and values byte by byte. -/
theorem lt_iff (t u : Tuple) : t.lt u = true ↔ t < u := by
  induction t generalizing u with
  | nil =>
      match u with
      | [] => simp [lt]
      | _ :: _ => simp [lt]
  | cons v t ih =>
      match u with
      | [] => simp [lt]
      | w :: u =>
          rw [lt, List.cons_lt_cons_iff]
          by_cases hvw : v = w
          · subst hvw
            simp [ih, Std.lt_irrefl]
          · simp [hvw, Bytes.le_iff, List.le_iff_lt_or_eq]

theorem le_iff (t u : Tuple) : t.le u = true ↔ t ≤ u := by
  rw [le, Bool.not_eq_true', ← Bool.not_eq_true, lt_iff]
  exact Iff.rfl

theorem mergeSort_eq_of_perm {ts us : List Tuple} (h : ts.Perm us) :
    ts.mergeSort le = us.mergeSort le :=
  LeastModel.mergeSort_eq_of_perm le_iff h

end Tuple

variable {digest : Digest}

/-! ## Reports -/

/-- A place to write to that never fails takes all pieces. -/
theorem Sink.run_forM_write (pieces : List Bytes) (written : Array Bytes) :
    (pieces.forM Sink.write).run.run ⟨written, none⟩ =
      (.ok (), ⟨written ++ pieces.toArray, none⟩) := by
  induction pieces generalizing written with
  | nil =>
      rw [Array.append_empty]
      rfl
  | cons piece pieces ih =>
      have hrun : ((piece :: pieces).forM Sink.write).run.run ⟨written, none⟩ =
          (pieces.forM Sink.write).run.run ⟨written.push piece, none⟩ := rfl
      rw [hrun, ih]
      simp

namespace Report

/-- Everything that is written for entries, piece by piece. -/
def pieces (layout : Table.Layout) (coloured : Bool) (style : AnswerStyle)
    (entries : List (Entry digest)) : List Bytes :=
  entries.flatMap fun e => header coloured e :: details layout style e

theorem write_eq_forM {m : Type → Type} [Monad m] [LawfulMonad m] (out : Bytes → m Unit)
    (layout : Table.Layout) (coloured : Bool) (style : AnswerStyle)
    (entries : List (Entry digest)) :
    write out layout coloured style entries =
      (pieces layout coloured style entries).forM out := by
  induction entries with
  | nil => rfl
  | cons e entries ih =>
      have hcons : pieces layout coloured style (e :: entries) =
          (header coloured e :: details layout style e) ++
            pieces layout coloured style entries := rfl
      rw [write, ih, hcons, List.forM_eq_forM, List.forM_append, List.forM_cons, bind_assoc]

/-- Nothing fails, and everything is written. -/
theorem run_write_reliable (layout : Table.Layout) (coloured : Bool) (style : AnswerStyle)
    (entries : List (Entry digest)) :
    (write Sink.write layout coloured style entries).run.run .reliable =
      (.ok (), ⟨(pieces layout coloured style entries).toArray, none⟩) := by
  rw [write_eq_forM, Sink.reliable, Sink.run_forM_write, Array.empty_append]

end Report

namespace Answer.SameAs

variable {a b : Answer digest}

theorem size_eq (h : a.SameAs b) : a.relation.size = b.relation.size := by
  rw [a.relation.size_eq_length, b.relation.size_eq_length, h.tuples.length_eq]

theorem isEmpty_eq (h : a.SameAs b) : a.relation.isEmpty = b.relation.isEmpty := by
  rw [Relation.isEmpty, Relation.isEmpty, h.size_eq]

theorem arity_eq (h : a.SameAs b) : a.relation.arity = b.relation.arity :=
  congrArg List.length h.schema

theorem sorted_eq (h : a.SameAs b) : a.relation.sorted = b.relation.sorted :=
  Tuple.mergeSort_eq_of_perm h.tuples

theorem header_eq (h : a.SameAs b) (coloured : Bool) :
    Report.header coloured (Report.entryOf a) = Report.header coloured (Report.entryOf b) := by
  dsimp only [Report.header, Report.entryOf]
  rw [h.query, h.isEmpty_eq, h.size_eq]

theorem details_eq (h : a.SameAs b) (layout : Table.Layout) (style : AnswerStyle) :
    Report.details layout style (Report.entryOf a) =
      Report.details layout style (Report.entryOf b) := by
  cases style with
  | text =>
      dsimp only [Report.details, Report.bindingLines, Report.entryOf]
      rw [h.arity_eq, h.schema, h.sorted_eq]
  | table =>
      dsimp only [Report.details, Report.tableLines, Report.entryOf, Table.ofRelation]
      rw [h.isEmpty_eq, h.schema, h.sorted_eq]

end Answer.SameAs

/-- Answers that are the same have the same report. -/
theorem Report.pieces_eq_of_sameAs {answers others : List (Answer digest)}
    (h : List.Forall₂ Answer.SameAs answers others) (layout : Table.Layout) (coloured : Bool)
    (style : AnswerStyle) :
    pieces layout coloured style (answers.map entryOf) =
      pieces layout coloured style (others.map entryOf) := by
  induction h with
  | nil => rfl
  | cons hab _ ih =>
      rw [pieces, pieces] at ih ⊢
      rw [List.map_cons, List.map_cons, List.flatMap_cons, List.flatMap_cons,
        hab.header_eq, hab.details_eq, ih]

end LeastModel
