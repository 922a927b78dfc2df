import LeastModel.Event.Infos
import LeastModel.Event.Milestone
import LeastModel.Number.Binary
import LeastModel.Number.Grouped
import LeastModel.Text.Blank

/-!
# How events are shown

Every event is shown as one line or a few, opened by the time it took. The
known kinds have wordings of their own; any other event is shown by its name and
its data. A value of an unexpected form is shown as what it is.
-/

namespace LeastModel

open Text (Colour paint)

namespace Datum

/-- Names in brackets, separated by spaces. -/
def bracketed (ss : List Bytes) : Bytes := "[" ++ Bytes.join " " ss ++ "]"

/-- What is told about relations, where `number` shows their sizes. -/
def showInfos (number : Int → Bytes) (rs : List RelationInfo) : Bytes :=
  bracketed (rs.map fun r =>
    ("\x7b" ++ r.name ++ " " ++ bracketed r.attrs ++ " " ++ number r.tuples ++ "\x7d" : Bytes))

/-- A truth value. -/
def showFlag (b : Bool) : Bytes := if b then "true" else "false"

/-- A number that stands where a text was wanted. -/
def strayInt (n : Int) : Bytes := "%!s(int=" ++ Bytes.ofInt n ++ ")"

/-- A value where a text is wanted. -/
def asText : Datum → Bytes
  | int n => strayInt n
  | text s => s
  | flag b => "%!s(bool=" ++ showFlag b ++ ")"
  | nothing => "%!s(<nil>)"
  | texts ss => bracketed ss
  | relations rs => showInfos strayInt rs
  | failure message => message
  | other asText .. => asText

/-- A value where any value is wanted. -/
def asValue : Datum → Bytes
  | int n => Bytes.ofInt n
  | text s => s
  | flag b => showFlag b
  | nothing => "<nil>"
  | texts ss => bracketed ss
  | relations rs => showInfos Bytes.ofInt rs
  | failure message => message
  | other _ asValue _ => asValue

/-- A value among other data. Only a value of another form may be spelled in another
way there, such as a reference by its address. -/
def amongData : Datum → Bytes
  | other _ _ amongData => amongData
  | d => d.asValue

end Datum

namespace Event

/-- The time an event took, in whole microseconds below a millisecond and in
milliseconds with one decimal place from there on. -/
def renderLatency (coloured : Bool) (nanoseconds : Int) : Bytes :=
  let micros := Int.tdiv nanoseconds 1000
  if nanoseconds < 1000000 then
    paint coloured .green ("[" ++ Bytes.ofInt micros ++ "µs]")
  else
    let shown := Number.Binary.nearest micros.toNat 1
    let (n, d) := shown.quotient
    let colour : Colour :=
      if micros < 50000 then .green else if micros < 200000 then .yellow else .red
    paint coloured colour ("[" ++ (Number.Binary.nearest n (d * 1000)).tenths ++ "ms]")

/-- What is counted. -/
inductive Measure where
  | relations
  | tuples
  | facts
  | rules
  | groups

/-- The label of a count. -/
def Measure.label : Measure → Bytes
  | .relations => "Relations"
  | .tuples => "Tuples"
  | .facts => "Facts"
  | .rules => "Rules"
  | .groups => "Groups"

/-- The colour of a count. -/
def Measure.colour : Measure → Colour
  | .relations | .groups => .cyan
  | .tuples => .magenta
  | .facts | .rules => .blue

/-- A number with commas and its label. -/
def renderCount (coloured : Bool) (u : Measure) (n : Int) : Bytes :=
  paint coloured u.colour (Number.grouped n ++ " " ++ u.label)

/-- The most characters of a query that are shown. -/
def maxQueryLength : Nat := 80

/-- A long text on one line: runs of white space become single spaces, and what
is longer than eighty characters ends in three dots. -/
def shorten (s : Bytes) : Bytes :=
  let s := Bytes.join " " (Text.fields s)
  if Utf8.length s ≤ maxQueryLength then s
  else Utf8.encode ((Utf8.decode s).take (maxQueryLength - 3)) ++ "..."

/-- A text without the line feeds at its end. -/
def trimLineFeeds (s : Bytes) : Bytes := (s.reverse.dropWhile (· == 0x0A)).reverse

/-- Whether a join gave more than half of all pairs of tuples. The product wraps
around at 64 bits. -/
def isLargeJoin (left right result : Int) : Bool :=
  1 < left && 1 < right && (Int.tdiv (Int.bmod (left * right) UInt64.size) 2) < result

/-- An event whose name is no milestone's: its name and all its data by key. -/
def renderData (data : List (Bytes × Datum)) : Bytes :=
  let sorted := data.mergeSort fun a b => Bytes.le a.1 b.1
  "map[" ++ Bytes.join " " (sorted.map fun (k, v) => (k ++ ":" ++ v.amongData : Bytes)) ++ "]"

/-- The wording of a milestone, after the time it took. -/
def renderBody (coloured : Bool) (e : Event) : Bytes :=
  let count (u : Measure) (key : Bytes) : Bytes := renderCount coloured u (e.int key)
  let number (key : Bytes) : Bytes := Bytes.ofInt (e.int key)
  let text (key : Bytes) : Bytes := (e.value key).asText
  if e.name = "program/loaded" then
    paint coloured .yellow "===" ++ " Loaded " ++ count .relations "relations.count" ++ " with " ++
      count .tuples "tuples.count" ++ " from " ++ count .facts "facts.count"
  else if e.name = "rules/grouped" then
    "Grouped " ++ count .rules "rules.count" ++ " into " ++ count .groups "group.count" ++ " (" ++
      number "recursive.count" ++ " recursive)" ++
      match e.get? "plan" with
      | some (.text plan) => if plan.isEmpty then [] else "\n" ++ trimLineFeeds plan
      | _ => []
  else if e.name = "group/begin" then
    paint coloured .yellow "===" ++ " SCC " ++ text "group" ++ " starting (" ++
      (if e.flag "recursive" then "recursive" else "non-recursive") ++ ")"
  else if e.name = "group/pass" then
    "SCC " ++ text "group" ++ " pass " ++ number "pass" ++ " added " ++
      count .tuples "tuples.added"
  else if e.name = "group/complete" then
    "SCC " ++ text "group" ++ " completed after " ++ number "passes" ++ " passes with " ++
      count .tuples "tuples.added"
  else if e.name = "rule/evaluated" then
    (if coloured then
      Colour.blue.dye "Rule(" ++ Colour.cyan.dye (e.value "rule").asValue ++ Colour.blue.dye ")"
    else "Rule(" ++ text "rule" ++ ")") ++
      paint coloured .yellow " → " ++ count .tuples "tuples.derived" ++ " derived, " ++
      count .tuples "tuples.added" ++ " new"
  else if e.name = "join/hash" then
    (if isLargeJoin (e.int "left.size") (e.int "right.size") (e.int "result.size") then
      paint coloured .yellow "⚠️" ++ " "
    else []) ++
      renderJoin coloured (e.texts "left.attrs") (e.int "left.size") (e.texts "right.attrs")
        (e.int "right.size") (e.texts "result.attrs") (e.int "result.size")
  else if e.name = "query/answered" then
    "Query " ++ shorten (e.value "query").asValue ++ "? → " ++ count .tuples "tuples.count"
  else if e.name = "evaluation/complete" then
    if e.flag "success" then
      paint coloured .green "===" ++ " Evaluation done in " ++ number "passes.total" ++
        " passes with " ++ count .tuples "tuples.count" ++ " in " ++
        count .relations "relations.count" ++ "." ++
        match e.get? "relations" with
        | some (.relations rs) =>
          if rs.isEmpty then [] else "\n" ++ RelationInfo.renderAll coloured rs
        | _ => []
    else
      paint coloured .red "✗" ++ " Evaluation failed: " ++ (e.value "error").asValue
  else e.name ++ " " ++ renderData e.data

/-- An event as it is shown. -/
def render (coloured : Bool) (e : Event) : Bytes :=
  renderLatency coloured e.latency ++ " " ++ renderBody coloured e

/-- An event as a listener writes it: as it is shown, and a line feed. -/
def line (coloured : Bool) (e : Event) : Bytes := render coloured e ++ "\n"

end Event

end LeastModel
