import LeastModel.Event.Basic
import LeastModel.Text.Colour

/-!
# How relations and joins are shown in events

The coloured wordings are put together from pieces, each in its own colour. The
plain wordings are written on their own.
-/

namespace LeastModel

open Text (Colour paint)

namespace RelationInfo

/-- The colour of a number of tuples: none and very many stand out. -/
def countColour (n : Int) : Colour :=
  if n = 0 then .red else if n < 100 then .green else if n < 10000 then .yellow else .red

/-- A number with its label. -/
def renderCount (coloured : Bool) (label : Bytes) (n : Int) : Bytes :=
  if coloured then (countColour n).dye (Bytes.ofInt n) ++ " " ++ label
  else Bytes.ofInt n ++ " " ++ label

/-- A relation by name, attributes and number of tuples. -/
def render (coloured : Bool) (r : RelationInfo) : Bytes :=
  let attrs := Bytes.join " " r.attrs
  if coloured then
    Colour.blue.dye r.name ++ Colour.blue.dye "([" ++ Colour.cyan.dye attrs ++
      Colour.blue.dye "]" ++ Colour.blue.dye ", " ++ renderCount coloured "Tuples" r.tuples ++
      Colour.blue.dye ")"
  else r.name ++ "([" ++ attrs ++ "], " ++ Bytes.ofInt r.tuples ++ " Tuples)"

/-- Relations in brackets, separated by spaces. -/
def renderAll (coloured : Bool) (rs : List RelationInfo) : Bytes :=
  "[" ++ Bytes.join " " (rs.map (render coloured)) ++ "]"

end RelationInfo

namespace Event

/-- A relation without a name. A negative number of tuples is left out. -/
def renderUnnamed (coloured : Bool) (attrs : List Bytes) (tuples : Int) : Bytes :=
  let attrs := Bytes.join " " attrs
  if coloured then
    let opened := Colour.blue.dye "Relation([" ++ Colour.cyan.dye attrs ++ Colour.blue.dye "]"
    if 0 ≤ tuples then
      opened ++ (Colour.blue.dye ", " ++ RelationInfo.renderCount coloured "Tuples" tuples ++
        Colour.blue.dye ")")
    else opened ++ Colour.blue.dye ")"
  else if 0 ≤ tuples then "Relation([" ++ attrs ++ "], " ++ Bytes.ofInt tuples ++ " Tuples)"
  else "Relation([" ++ attrs ++ "])"

/-- A join: the two relations and what they gave. -/
def renderJoin
    (coloured : Bool) (leftAttrs : List Bytes) (leftTuples : Int)
    (rightAttrs : List Bytes) (rightTuples : Int)
    (resultAttrs : List Bytes) (resultTuples : Int) : Bytes :=
  renderUnnamed coloured leftAttrs leftTuples ++ paint coloured .yellow " × " ++
    renderUnnamed coloured rightAttrs rightTuples ++ " → " ++
    renderUnnamed coloured resultAttrs resultTuples

end Event

end LeastModel
