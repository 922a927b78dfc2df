import LeastModel.Relation.Basic
import LeastModel.Text.Blank
import LeastModel.Text.Width

/-!
# Tables

A relation as a table: a header with the attributes, and a row per tuple. How
header and rows are laid out as text is left to a function (`Table.Layout`). The
layout in use (`Table.markdown`) has lines between bars: the header, a ruler, and
a line per row, or several where a value has line feeds. Columns are as wide as
their widest line.
-/

namespace LeastModel

/-- How values are cut: longer ones than `maxWidth` characters end in `ellipsis`.
A width that is not positive cuts nothing. -/
structure TableStyle where
  maxWidth : Int := 50
  ellipsis : Bytes := "..."

namespace TableStyle

/-- A value as it is shown in a cell. -/
def cut (style : TableStyle) (value : Bytes) : Bytes :=
  if style.maxWidth ≤ 0 ∨ (Utf8.length value : Int) ≤ style.maxWidth then value
  else
    let kept := (style.maxWidth - Utf8.length style.ellipsis).toNat
    Utf8.encode ((Utf8.decode value).take kept) ++ style.ellipsis

end TableStyle

namespace Table

/-- A way to lay out a table with a header and rows of cells. -/
abbrev Layout := (header : List Bytes) → (rows : List (List Bytes)) → Bytes

/-! ## Lines between bars -/

/-- The lines of a cell, without white space around the cell. -/
def cellLines (cell : Bytes) : List Bytes := Bytes.lines (Text.trim cell)

/-- `n` spaces. -/
def spaces (n : Nat) : Bytes := List.replicate n 0x20

/-- `n` hyphens. -/
def hyphens (n : Nat) : Bytes := List.replicate n 0x2D

/-- The width of a column with the given cells. -/
def columnWidth (cells : List (List Bytes)) : Nat :=
  ((cells.flatten.map fun line => Text.width (Text.trim line) + 2).foldl max 3)

/-- Where a text stands in its cell. -/
inductive Alignment where
  | left
  | centre

/-- A text in a cell of a width: between spaces, at least one on either side. A
text in the middle has the odd space after it. A mark at the edge of the text
may be drawn together with the space next to it; the columns lost in this way
are made up for by further spaces. -/
def cell (alignment : Alignment) (width : Nat) (text : Bytes) : Bytes :=
  let w := Text.width text
  let room := max width (w + 2)
  let padding := room - w
  let before :=
    match alignment with
    | .left => 1
    | .centre => padding / 2
  let filled := spaces before ++ text ++ spaces (padding - before)
  let lost := room - Text.width filled
  match alignment with
  | .left => filled ++ spaces lost
  | .centre => spaces (lost / 2) ++ filled ++ spaces (lost - lost / 2)

/-- The ruler below the header cell of a column. Colons tell that the cells of the
column stand in the middle. -/
def rulerCell (alignment : Alignment) (width : Nat) : Bytes :=
  match alignment with
  | .left => hyphens width
  | .centre => ":" ++ hyphens (width - 2) ++ ":"

/-- Pieces between bars. -/
def barred (pieces : List Bytes) : Bytes := "|" ++ Bytes.join "|" pieces ++ "|\n"

/-- The lines of a row with `columns` cells: line by line, a piece per cell. -/
def rowLines (columns : Nat) (row : List (List Bytes)) : List (List Bytes) :=
  let height := (row.map (·.length)).foldl max 1
  (List.range height).map fun k =>
    (List.range columns).map fun c => (row.getD c []).getD k []

/-- The lines of a row that are shown: the first, and those that are not blank. -/
def shownLines : List (List Bytes) → List (List Bytes)
  | [] => []
  | first :: others => first :: others.filter fun line => line.any fun text => !(Text.trim text).isEmpty

/-- A table with a header and rows of cells. The cells of a column stand at its
left, but in the middle where the header has no cell for it. -/
def markdown : Layout := fun header rows =>
  let header := header.map cellLines
  let rows := rows.map (·.map cellLines)
  let columns := (rows.map (·.length)).foldl max header.length
  let widths := (List.range columns).map fun c =>
    columnWidth ((header.getD c []) :: rows.map (·.getD c []))
  let alignments := (List.range columns).map fun c =>
    if c < header.length then Alignment.left else .centre
  let ruler := barred (alignments.zipWith rulerCell widths)
  let headerText := (rowLines columns header).flatMap fun line =>
    barred (widths.zipWith (cell .centre) line) ++ ruler
  let rowCell (column : Alignment × Nat) (text : Bytes) : Bytes := cell column.1 column.2 text
  let rowText := rows.flatMap fun row =>
    (shownLines (rowLines columns row)).flatMap fun line =>
      barred ((alignments.zip widths).zipWith rowCell line)
  headerText ++ rowText

/-! ## Tables of relations -/

/-- The cells of a tuple. A tuple without values has one cell that says so. -/
def cells (style : TableStyle) : Tuple → List Bytes
  | [] => ["yes"]
  | t => t.map style.cut

/-- The table of a list of tuples. Without attributes there is one column, which
tells that the tuple is there. -/
def ofTuples (layout : Layout) (style : TableStyle) (schema : List Bytes) (tuples : List Tuple) :
    Bytes :=
  if tuples.isEmpty then "_Columns: " ++ Fault.bracketed schema ++ "_\n\n_No rows_"
  else
    layout (if schema.isEmpty then ["true"] else schema) (tuples.map (cells style)) ++
      "\n_" ++ Bytes.ofNat tuples.length ++ " rows_\n"

/-- The table of a relation, its tuples in ascending order. -/
def ofRelation {digest : Digest} (layout : Layout) (style : TableStyle) (r : Relation digest) :
    Bytes :=
  if r.isEmpty then "_Empty relation_" else ofTuples layout style r.schema r.sorted

/-- The table of a relation that may be missing. -/
def ofRelation? {digest : Digest} (layout : Layout) (style : TableStyle) :
    Option (Relation digest) → Bytes
  | some r => ofRelation layout style r
  | none => "_Empty relation_"

end Table

end LeastModel
