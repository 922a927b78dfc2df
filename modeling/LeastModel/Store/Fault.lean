import LeastModel.Fault
import LeastModel.Text.Quoted

/-!
# What can go wrong with a store
-/

namespace LeastModel

/-- The causes of failure of a store. -/
inductive StoreFault where
  /-- A key that is too short or has no separator after its position. -/
  | corruptKey (key : Bytes)
  /-- A key whose tag is unknown. -/
  | corruptTag (tag : UInt8)
  /-- A header that cannot be read. -/
  | corruptHeader
  /-- A tuple that cannot be read. -/
  | corruptTuple
  /-- A tuple that comes before any header. -/
  | tupleBeforeHeader
  /-- A tuple that does not fit the relation of its header. -/
  | misfit (fault : Fault)
  /-- A value that is longer than the store allows. -/
  | tooLong (query : Atom) (size limit : Nat)
  deriving DecidableEq

namespace StoreFault

/-- Whether the stored bytes themselves are to blame. -/
def isCorrupt : StoreFault → Bool
  | corruptKey _ | corruptTag _ | corruptHeader | corruptTuple | tupleBeforeHeader => true
  | misfit _ | tooLong .. => false

/-- What is said about stored bytes that make no sense. -/
def corrupt (detail : Bytes) : Bytes := "corrupt stored value: " ++ detail

/-- The wording of a failure. -/
def message : StoreFault → Bytes
  | corruptKey key => corrupt ("key " ++ Text.quoted key)
  | corruptTag tag => corrupt ("key tag " ++ Text.quotedChar (Char.ofNat tag.toNat))
  | corruptHeader => corrupt "answer header"
  | corruptTuple => corrupt "tuple"
  | tupleBeforeHeader => corrupt "tuple before header"
  | misfit fault => fault.message
  | tooLong query size limit =>
    "failed to write answer " ++ query.render ++ ": Value with size " ++ Bytes.ofNat size ++
      " exceeded " ++ Bytes.ofNat limit ++ " limit."

end StoreFault

end LeastModel
