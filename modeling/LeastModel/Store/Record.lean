import LeastModel.Program.Basic
import LeastModel.Store.Key

/-!
# Values of a store

The header of an answer holds its query, so that it can be rebuilt without the
program, and the name and attributes of its relation. Both headers and tuples
tell where they end; what follows is not looked at.
-/

namespace LeastModel.Store

/-- What is stored about an answer besides its tuples. -/
structure Header where
  query : Atom
  name : Bytes
  schema : List Bytes
  deriving DecidableEq

/-- A term as it is stored: the number of its kind, then its value. -/
def encodeTerm (t : Term) : Bytes := t.kind.code :: Codec.counted t.value

/-- A header as it is stored. -/
def encodeHeader (h : Header) : Bytes :=
  Codec.counted h.query.name ++ Codec.uvarint h.query.terms.length ++
    h.query.terms.flatMap encodeTerm ++ Codec.counted h.name ++ Codec.countedList h.schema

/-- Reads a term. -/
def readTerm? (bs : Bytes) : Option (Term × Bytes) := do
  let (code, rest) ← Codec.readByte? bs
  let (value, rest) ← Codec.readCounted? rest
  return (⟨⟨code⟩, value⟩, rest)

/-- Reads a header. -/
def readHeader? (bs : Bytes) : Option (Header × Bytes) := do
  let (queryName, rest) ← Codec.readCounted? bs
  let (terms, rest) ← Codec.readList? readTerm? rest
  let (name, rest) ← Codec.readCounted? rest
  let (schema, rest) ← Codec.readCountedList? rest
  return (⟨⟨queryName, terms⟩, name, schema⟩, rest)

/-- The header that a value starts with. -/
def decodeHeader (bs : Bytes) : Except StoreFault Header :=
  match readHeader? bs with
  | some (h, _) => .ok h
  | none => .error .corruptHeader

/-- The tuple that a value starts with. -/
def decodeTuple (bs : Bytes) : Except StoreFault Tuple :=
  match Codec.readCountedList? bs with
  | some (t, _) => .ok t
  | none => .error .corruptTuple

end LeastModel.Store
