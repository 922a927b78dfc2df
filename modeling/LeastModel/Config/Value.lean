import LeastModel.Config.Scalar
import LeastModel.Number.Shortest
import LeastModel.Text.Quoted

/-!
# Values

What a node of a configuration file is where anything may stand. The keys of a
mapping are scalars that differ from each other.
-/

namespace LeastModel.Config

/-- A value of any form. -/
inductive Value where
  | scalar (meaning : Scalar)
  | sequence (items : List Value)
  /-- The entries of a mapping; `texts` tells that it is made for texts as keys. -/
  | mapping (texts : Bool) (entries : List (Scalar × Value))

namespace Real

/-- Whether two numbers are equal. An undefined number equals none, and zeros are
equal whatever their signs. -/
def same : Real → Real → Bool
  | .finite s a, .finite t b => a.same b && (s == t || a.mantissa == 0)
  | .infinite s, .infinite t => s == t
  | _, _ => false

/-- A natural number with a sign. -/
def withSign (negative : Bool) (n : Nat) : Int := if negative then -n else n

/-- The order of numbers. An undefined number comes first. -/
def le : Real → Real → Bool
  | .undefined, _ => true
  | _, .undefined => false
  | .infinite s, .infinite t => s || !t
  | .infinite s, .finite .. => s
  | .finite .., .infinite t => !t
  | .finite s a, .finite t b =>
    let (n, d) := a.quotient
    let (m, e) := b.quotient
    withSign s (n * e) ≤ withSign t (m * d)

/-- A number in its shortest form. -/
def render : Real → Bytes
  | .finite negative magnitude => (if negative then "-" else "") ++ magnitude.render
  | .infinite negative => if negative then "-Inf" else "+Inf"
  | .undefined => "NaN"

end Real

namespace Date

/-- The names of the months. -/
def monthNames : List Bytes :=
  ["January", "February", "March", "April", "May", "June", "July", "August", "September",
   "October", "November", "December"]

/-- The wording of a zone. A distance of none is that of the machine's own clock. -/
def zoneWording : Zone → Bytes
  | .universal => "time.UTC"
  | .ahead minutes => if minutes = 0 then "time.Local" else "time.Location(\x22\x22)"

/-- The wording of a date. -/
def wording (d : Date) : Bytes :=
  let month : Bytes := "time." ++ monthNames.getD (d.month - 1) []
  let figures : List Nat :=
    [d.day, d.clock.hour, d.clock.minute, d.clock.second, d.clock.nanosecond]
  "time.Date(" ++
    Bytes.join ", " ([Bytes.ofNat d.year, month] ++ figures.map Bytes.ofNat ++ [zoneWording d.zone])
    ++ ")"

end Date

namespace Scalar

/-- Whether two scalars are the same key. -/
def same : Scalar → Scalar → Bool
  | .nothing, .nothing => true
  | .truth a, .truth b => a == b
  | .integer a, .integer b => a == b
  | .real a, .real b => a.same b
  | .date a, .date b => a.same b
  | .text a, .text b => a == b
  | _, _ => false

/-- Whether an integer is too large for one with a sign. -/
def isLarge (n : Int) : Bool := Number.signedEnd ≤ n

/-- The place of the form of a scalar in the order of keys. -/
def rank : Scalar → Nat
  | .nothing => 0
  | .integer n => if isLarge n then 1 else 2
  | .real _ => 3
  | .truth _ => 4
  | .text _ => 5
  | .date _ => 6

/-- The order of scalars of one form. -/
def leWithin : Scalar → Scalar → Bool
  | .truth a, .truth b => !a || b
  | .integer a, .integer b => a ≤ b
  | .real a, .real b => a.le b
  | .date a, .date b => a.le b
  | .text a, .text b => a.le b
  | _, _ => true

/-- The order of keys: by their forms, then within a form. -/
def le (a b : Scalar) : Bool :=
  a.rank < b.rank || (a.rank == b.rank && a.leWithin b)

/-- The wording of a scalar. -/
def wording : Scalar → Bytes
  | .nothing => "interface \x7b\x7d(nil)"
  | .truth b => if b then "true" else "false"
  | .integer n =>
    if isLarge n then "0x" ++ Utf8.encode (Nat.toDigits 16 n.toNat) else Bytes.ofInt n
  | .real x => x.render
  | .date d => d.wording
  | .text s => Text.quoted s

end Scalar

/-- Puts an entry into a mapping, in the place of an entry with the same key. -/
def putEntry (key : Scalar) (value : Value) (entries : List (Scalar × Value)) :
    List (Scalar × Value) :=
  entries.filter (fun e => !e.1.same key) ++ [(key, value)]

/-- The form of a mapping with texts or with any scalars as keys. -/
def mappingForm (texts : Bool) : Bytes :=
  if texts then "map[string]interface \x7b\x7d" else "map[interface \x7b\x7d]interface \x7b\x7d"

/-- Pieces in braces after the name of their form. -/
def braced (form : Bytes) (pieces : List Bytes) : Bytes :=
  form ++ "\x7b" ++ Bytes.join ", " pieces ++ "\x7d"

mutual

/-- The wording of a value. The entries of a mapping are in the order of their keys. -/
def Value.wording : Value → Bytes
  | .scalar meaning => meaning.wording
  | .sequence items => braced "[]interface \x7b\x7d" (wordings items)
  | .mapping texts entries =>
    let sorted := (entryWordings entries).mergeSort fun a b => a.1.le b.1
    braced (mappingForm texts) (sorted.map (·.2))

/-- The wordings of values. -/
def wordings : List Value → List Bytes
  | [] => []
  | v :: vs => v.wording :: wordings vs

/-- The wordings of entries, each with its key. -/
def entryWordings : List (Scalar × Value) → List (Scalar × Bytes)
  | [] => []
  | (k, v) :: rest => (k, k.wording ++ ":" ++ v.wording) :: entryWordings rest

end

end LeastModel.Config
