import LeastModel.Text.Utf8

/-!
# Events

An event tells of one step of an evaluation: a name, how long the step took, and
data under keys. Data are kept as they come; whoever shows an event decides what
to make of a value of an unexpected form.
-/

namespace LeastModel

/-- What is told about a relation: its name, its attributes and its size. -/
structure RelationInfo where
  name : Bytes
  attrs : List Bytes
  tuples : Int
  deriving DecidableEq

/-- A value under a key of an event. Any value may stand there; those of a form
that no event of an evaluation has are known by how they are spelled. -/
inductive Datum where
  | int (n : Int)
  | text (s : Bytes)
  | flag (b : Bool)
  | nothing
  | texts (ss : List Bytes)
  | relations (rs : List RelationInfo)
  | failure (message : Bytes)
  /-- A value of another form: how it is spelled where a text is wanted, where any
  value is wanted, and among other data. -/
  | other (asText asValue amongData : Bytes)
  deriving DecidableEq

/-- A step of an evaluation. The latency is in nanoseconds. -/
structure Event where
  name : Bytes
  data : List (Bytes × Datum)
  latency : Int := 0
  deriving DecidableEq

namespace Event

/-- The value under a key. -/
def get? (e : Event) (key : Bytes) : Option Datum := e.data.lookup key

/-- The number under a key; zero when there is none. -/
def int (e : Event) (key : Bytes) : Int :=
  match e.get? key with
  | some (.int n) => n
  | _ => 0

/-- The truth value under a key; false when there is none. -/
def flag (e : Event) (key : Bytes) : Bool :=
  match e.get? key with
  | some (.flag b) => b
  | _ => false

/-- The list of texts under a key; empty when there is none. -/
def texts (e : Event) (key : Bytes) : List Bytes :=
  match e.get? key with
  | some (.texts ss) => ss
  | _ => []

/-- The value under a key, where a missing key counts as no value. -/
def value (e : Event) (key : Bytes) : Datum := (e.get? key).getD .nothing

end Event

/-- Keeps events, and hands each to a listener as it occurs. A recorder without
a listener keeps nothing. -/
structure Recorder where
  listening : Bool
  events : Array Event
  /-- Everything the listener has been handed, which a reset does not undo. -/
  delivered : Array Event

namespace Recorder

/-- A recorder that has kept nothing yet. -/
def new (listening : Bool) : Recorder := ⟨listening, #[], #[]⟩

/-- Keeps an event. -/
def record (r : Recorder) (e : Event) : Recorder :=
  if r.listening then { r with events := r.events.push e, delivered := r.delivered.push e } else r

/-- Forgets the events kept so far. -/
def reset (r : Recorder) : Recorder := { r with events := #[] }

end Recorder

end LeastModel
