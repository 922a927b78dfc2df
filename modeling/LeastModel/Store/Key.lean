import LeastModel.Relation.Tuple
import LeastModel.Store.Fault

/-!
# Keys of a store

All keys of answers start alike. The position of an answer follows in four
bytes, highest first, so that keys sort by position; then a tag, by which the
header of an answer sorts before its tuples. The key of a tuple ends with a hash
and the encoded tuple, so that different tuples have different keys whatever
the hash.
-/

namespace LeastModel.Store

/-- What all keys of answers start with. -/
def answerMark : Bytes := "answer/"

/-- The byte that ends a part of a key. -/
def separator : UInt8 := 0x2F

/-- The tag of a header. -/
def headerTag : UInt8 := 0x68

/-- The tag of a tuple. -/
def tupleTag : UInt8 := 0x74

/-- A word of 32 bits in four bytes, the highest first. -/
def bigEndian32 (n : UInt32) : Bytes :=
  [(n >>> 24).toUInt8, (n >>> 16).toUInt8, (n >>> 8).toUInt8, n.toUInt8]

/-- A word of 64 bits in eight bytes, the highest first. -/
def bigEndian64 (n : UInt64) : Bytes :=
  [(n >>> 56).toUInt8, (n >>> 48).toUInt8, (n >>> 40).toUInt8, (n >>> 32).toUInt8,
   (n >>> 24).toUInt8, (n >>> 16).toUInt8, (n >>> 8).toUInt8, n.toUInt8]

/-- The common part of the keys of the answer at a position. -/
def answerKey (n : UInt32) : Bytes := answerMark ++ bigEndian32 n ++ [separator]

/-- The key of the header of an answer. -/
def headerKey (n : UInt32) : Bytes := answerKey n ++ [headerTag]

/-- A tuple as it is stored. -/
def encodeTuple (t : Tuple) : Bytes := Codec.countedList t

/-- The key of a tuple of an answer. -/
def tupleKey (hash : Digest) (n : UInt32) (t : Tuple) : Bytes :=
  answerKey n ++ [tupleTag, separator] ++ bigEndian64 (hash (encodeTuple t)) ++ encodeTuple t

/-- The position and the tag of a key that starts like the key of an answer. -/
def decodeKey (key : Bytes) : Except StoreFault (UInt32 × UInt8) :=
  match key.drop answerMark.length with
  | a :: b :: c :: d :: slash :: tag :: _ =>
    if slash = separator then
      .ok ((a.toUInt32 <<< 24) ||| (b.toUInt32 <<< 16) ||| (c.toUInt32 <<< 8) ||| d.toUInt32, tag)
    else .error (.corruptKey key)
  | _ => .error (.corruptKey key)

end LeastModel.Store
