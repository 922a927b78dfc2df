import LeastModel.Answer.Table
import LeastModel.Evaluation.Options
import LeastModel.Text.Colour
import LeastModel.Text.Quoted

/-!
# Reports of answers

Answers are written in the order of the queries, line by line, to whatever
takes them: `write` is called once for every line of bindings, every header and
every table. Tables are laid out by a function that is given.
-/

namespace LeastModel

/-- The ways to show answers. -/
inductive AnswerStyle where
  | text
  | table
  deriving DecidableEq

namespace AnswerStyle

/-- The name of a style. -/
def name : AnswerStyle → Bytes
  | text => "text"
  | table => "table"

/-- A capital letter of the Latin alphabet as a small one. No other character
becomes a letter of a style's name when it is made small. -/
def small (b : UInt8) : UInt8 := if 0x41 ≤ b ∧ b ≤ 0x5A then b + 0x20 else b

/-- The style of a given name, whatever the case of its letters. -/
def ofName? (s : Bytes) : Option AnswerStyle :=
  if s.map small = text.name then some text
  else if s.map small = table.name then some table
  else none

/-- The message for a name that is no style's. -/
def unknownMessage (s : Bytes) : Bytes :=
  "unknown answer format " ++ Text.quoted s ++ " (want text or table)"

end AnswerStyle

namespace Report

/-- A query with the relation that answers it, if there is one. -/
structure Entry (digest : Digest) where
  query : Atom
  relation : Option (Relation digest)

variable {digest : Digest}

/-- An answer as an entry of a report. -/
def entryOf (a : Answer digest) : Entry digest := ⟨a.query, some a.relation⟩

/-- The line that says whether a query has answers, and how many. -/
def header (coloured : Bool) (e : Entry digest) : Bytes :=
  let verdict :=
    match e.relation with
    | none => Text.paint coloured .red "No"
    | some r =>
      if r.isEmpty then Text.paint coloured .red "No"
      else Text.paint coloured .green ("Yes(" ++ Bytes.ofNat r.size ++ ")")
  e.query.render ++ "? " ++ verdict ++ "\n"

/-- The values of a tuple with the attributes they belong to. -/
def bindings (schema : List Bytes) (t : Tuple) : Bytes :=
  Bytes.join ", " (schema.zipIdx.map fun (name, i) => (name ++ "=" ++ t.value i : Bytes))

/-- The lines of bindings of an entry: one per tuple, if there are attributes. -/
def bindingLines (e : Entry digest) : List Bytes :=
  match e.relation with
  | none => []
  | some r =>
    if r.arity = 0 then []
    else r.sorted.map fun t => ("  " ++ bindings r.schema t ++ "\n" : Bytes)

/-- The table of an entry, if it has tuples. -/
def tableLines (layout : Table.Layout) (e : Entry digest) : List Bytes :=
  match e.relation with
  | none => []
  | some r => if r.isEmpty then [] else [Table.ofRelation layout {} r ++ "\n"]

/-- What follows the header of an entry. -/
def details (layout : Table.Layout) (style : AnswerStyle) (e : Entry digest) : List Bytes :=
  match style with
  | .text => bindingLines e
  | .table => tableLines layout e

/-- Writes the entries in order. -/
def write {m : Type → Type} [Monad m] (write : Bytes → m Unit) (layout : Table.Layout)
    (coloured : Bool) (style : AnswerStyle) : List (Entry digest) → m Unit
  | [] => pure ()
  | e :: es => do
    write (header coloured e)
    (details layout style e).forM write
    Report.write write layout coloured style es

end Report

/-- A place to write to that may begin to fail: with `some n` left, the first
`n` writes go through and every later one fails; with `none`, all go through. -/
structure Sink where
  pieces : Array Bytes
  left : Option Nat
  deriving DecidableEq

namespace Sink

/-- A place to write to that never fails. -/
def reliable : Sink := ⟨#[], none⟩

/-- A place to write to at which the `k`-th write is the first that fails; for
zero, none does. -/
def failingAt (k : Nat) : Sink := ⟨#[], if k = 0 then none else some (k - 1)⟩

/-- Everything that was written. -/
def written (s : Sink) : Bytes := s.pieces.toList.flatten

/-- A write that was refused. -/
structure Refused where
  deriving DecidableEq

/-- Writes a piece. -/
def write (piece : Bytes) : ExceptT Refused (StateM Sink) Unit := do
  let s ← get
  match s.left with
  | none => set (⟨s.pieces.push piece, none⟩ : Sink)
  | some 0 => throw ⟨⟩
  | some (n + 1) => set (⟨s.pieces.push piece, some n⟩ : Sink)

end Sink

end LeastModel
