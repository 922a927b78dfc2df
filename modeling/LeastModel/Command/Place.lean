import LeastModel.Text.Utf8

/-!
# Places in a tree of directories

A path is a byte string: names with separators between them. It denotes a place
only in a tree, because a step back is taken from a directory that must exist.
This module holds the places, the names of a path, and a single step along a
name; which places are directories is for a world to say.
-/

namespace LeastModel.Command

/-- Where the names that lead to a place start. -/
inductive Anchor where
  /-- A number of steps above the directory in which a command runs. -/
  | above (steps : Nat)
  /-- The directory that has no other above it. -/
  | root
  deriving DecidableEq, Repr

/-- A place in a tree of directories. -/
structure Place where
  anchor : Anchor := .above 0
  names : List Bytes := []
  deriving DecidableEq, Repr

/-- Why a path leads nowhere. -/
inductive PathFault where
  | missing
  | notDirectory
  | tooLong
  | malformed
  deriving DecidableEq, Repr

/-- The wording of a fault. -/
def PathFault.message : PathFault → Bytes
  | missing => "no such file or directory"
  | notDirectory => "not a directory"
  | tooLong => "file name too long"
  | malformed => "invalid argument"

namespace Place

/-- The most bytes that a name has. -/
def nameLimit : Nat := 255

/-- The directory above a place; the root is above itself. -/
def parent (p : Place) : Place :=
  match p.anchor, p.names with
  | .above n, [] => { anchor := .above (n + 1) }
  | .root, [] => p
  | anchor, names => { anchor, names := names.dropLast }

/-- The place under a name in a directory. -/
def child (p : Place) (name : Bytes) : Place := { p with names := p.names ++ [name] }

/-- Whether a place is on the way to another one. -/
def isAbove (p q : Place) : Bool :=
  p.anchor = q.anchor && p.names.isPrefixOf q.names && p ≠ q

/-- A step from a directory: an empty name or a point stays, two points go to
the directory above. -/
def step (p : Place) (name : Bytes) : Except PathFault Place :=
  if name.isEmpty ∨ name = "." then .ok p
  else if name = ".." then .ok p.parent
  else if nameLimit < name.length then .error .tooLong
  else .ok (p.child name)

end Place

namespace Path

/-- The byte between names. -/
def separator : UInt8 := 0x2F

/-- The number of bytes that no path reaches. -/
def limit : Nat := 4096

/-- The names of a path: the pieces of a byte string between separators. -/
def names : Bytes → List Bytes
  | [] => [[]]
  | b :: bs =>
    if b = separator then [] :: names bs
    else
      match names bs with
      | [] => [[b]]
      | p :: ps => (b :: p) :: ps

/-- Where the names of a path start: a separator in front starts at the root. -/
def origin (path : Bytes) : Place :=
  if path.head? = some separator then { anchor := .root } else {}

/-- What can be said against a path without a tree. -/
def check (path : Bytes) : Except PathFault Unit :=
  if path.contains 0 then .error .malformed
  else if path.isEmpty then .error .missing
  else if limit ≤ path.length then .error .tooLong
  else .ok ()

/-- The place that a path leads to if every directory on the way exists. -/
def place (path : Bytes) : Place :=
  (names path).foldl (fun p name => (p.step name).toOption.getD p) (origin path)

end Path

end LeastModel.Command
