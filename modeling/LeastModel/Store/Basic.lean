import LeastModel.Evaluation.Options
import LeastModel.Store.Record

/-!
# Stores of answers

A store is an ordered map from byte strings to byte strings. It keeps the
answers of the most recent run: saving first drops what was saved before, and
loading relies on the order of keys to find the tuples of an answer right after
its header.
-/

namespace LeastModel

/-- An ordered map from byte strings to byte strings. -/
structure Store where
  entries : Std.TreeMap Bytes Bytes

namespace Store

/-- The store without entries. -/
def empty : Store := ⟨∅⟩

/-- The entries in ascending order of their keys. -/
def toList (s : Store) : List (Bytes × Bytes) := s.entries.toList

/-- Puts a value under a key. -/
def put (s : Store) (key value : Bytes) : Store := ⟨s.entries.insert key value⟩

/-- Whether a key is one of an answer. -/
def isAnswerKey (key : Bytes) : Bool := answerMark.isPrefixOf key

/-- The entries of answers in ascending order of their keys. -/
def answerEntries (s : Store) : List (Bytes × Bytes) := s.toList.filter (isAnswerKey ·.1)

/-- The store without any answers. -/
def clear (s : Store) : Store := ⟨s.entries.filter fun key _ => !isAnswerKey key⟩

variable {digest : Digest}

/-- The header of an answer. -/
def headerOf (a : Answer digest) : Header := ⟨a.query, a.relation.name, a.relation.schema⟩

/-- The entries of the answer at a position: its header, then its tuples. -/
def entriesOf (hash : Digest) (n : UInt32) (a : Answer digest) : List (Bytes × Bytes) :=
  (headerKey n, encodeHeader (headerOf a)) ::
    a.relation.tuples.map fun t => (tupleKey hash n t, encodeTuple t)

/-- Refuses the first value that is longer than `limit`. -/
def checkSizes (limit : Option Nat) (query : Atom) :
    List (Bytes × Bytes) → Except StoreFault Unit
  | [] => .ok ()
  | (_, value) :: rest =>
    match limit with
    | none => .ok ()
    | some limit =>
      if limit < value.length then .error (.tooLong query value.length limit)
      else checkSizes (some limit) query rest

/-- The entries of answers from a position on, if no value is too long. -/
def batch (hash : Digest) (limit : Option Nat) :
    (position : Nat) → List (Answer digest) → Except StoreFault (List (Bytes × Bytes))
  | _, [] => .ok []
  | position, a :: answers => do
    let entries := entriesOf hash (UInt32.ofNat position) a
    checkSizes limit a.query entries
    return entries ++ (← batch hash limit (position + 1) answers)

/-- Replaces the answers of a store. When a value is refused, the old answers are
gone all the same and none of the new ones is stored. -/
def save (s : Store) (hash : Digest) (limit : Option Nat) (answers : List (Answer digest)) :
    Except StoreFault Unit × Store :=
  match batch hash limit 0 answers with
  | .error fault => (.error fault, s.clear)
  | .ok entries => (.ok (), entries.foldl (fun s (key, value) => s.put key value) s.clear)

/-- Reads entries in order. `read` holds the answers so far, the latest first;
a tuple belongs to the latest. -/
def loadFrom :
    List (Bytes × Bytes) → (read : List (Answer digest)) →
      Except StoreFault (List (Answer digest))
  | [], read => .ok read.reverse
  | (key, value) :: rest, read => do
    let (_, tag) ← decodeKey key
    if tag = headerTag then
      let h ← decodeHeader value
      loadFrom rest (⟨h.query, .empty h.name h.schema⟩ :: read)
    else if tag = tupleTag then
      match read with
      | [] => throw .tupleBeforeHeader
      | a :: older =>
        let t ← decodeTuple value
        let (relation, _) ← (a.relation.add t).mapError .misfit
        loadFrom rest ({ a with relation } :: older)
    else throw (.corruptTag tag)

/-- The stored answers in order. -/
def load (s : Store) : Except StoreFault (List (Answer digest)) := loadFrom s.answerEntries []

/-- The queries of the headers among the entries. -/
def listFrom : List (Bytes × Bytes) → Except StoreFault (List Bytes)
  | [] => .ok []
  | (key, value) :: rest => do
    let (_, tag) ← decodeKey key
    if tag = headerTag then
      let h ← decodeHeader value
      return (h.query.render ++ "?") :: (← listFrom rest)
    else listFrom rest

/-- The stored queries in order. -/
def list (s : Store) : Except StoreFault (List Bytes) := listFrom s.answerEntries

/-- All entries in one byte string. -/
def snapshot (s : Store) : Bytes :=
  Codec.countedList (s.toList.flatMap fun (key, value) => [key, value])

/-- Puts keys and values, given in turn, into a store. -/
def putAll (s : Store) : List Bytes → Store
  | key :: value :: rest => (s.put key value).putAll rest
  | _ => s

/-- The store that a byte string describes; none when it is no snapshot. -/
def ofSnapshot? (bs : Bytes) : Option Store := do
  let (items, _) ← Codec.readCountedList? bs
  return empty.putAll items

end Store

end LeastModel
