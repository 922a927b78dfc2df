import LeastModel.Command.Place
import LeastModel.Command.Run

/-!
# A world that is a value

The surroundings of a command without any machine: files, directories and
stores at their places, an input, an output that may begin to refuse what is
written, and a log. A path is followed name by name, so that every place on the
way has to be a directory, also one that the next name leaves again.
-/

namespace LeastModel.Command

/-- The surroundings of a command. -/
structure World where
  files : List (Place × Bytes) := []
  /-- The directories that hold no file. -/
  directories : List Place := []
  stores : List (Place × Store) := []
  /-- What the input gives: its content, or the reason why it cannot be read. -/
  input : Except Bytes Bytes := .ok []
  output : Sink := .reliable
  /-- The reason that is given when the output refuses a piece. -/
  refusal : Bytes := []
  notes : Array Bytes := #[]

namespace World

/-- Everything that was logged. -/
def logged (w : World) : Bytes := w.notes.toList.flatten

/-- The file that is empty in every world. -/
def emptyFile : Place := { anchor := .root, names := ["dev", "null"] }

/-- The content of a file. -/
def file? (w : World) (p : Place) : Option Bytes :=
  if p = emptyFile then some [] else w.files.lookup p

/-- The store in a directory. -/
def store? (w : World) (p : Place) : Option Store := w.stores.lookup p

/-- Whether a place is a directory: one where names start, one that was made, or
one on the way to a file. -/
def isDirectory (w : World) (p : Place) : Bool :=
  p.names.isEmpty || w.directories.contains p || p.isAbove emptyFile ||
    w.files.any fun (q, _) => p.isAbove q

/-- Whether there is something at a place. -/
def isOccupied (w : World) (p : Place) : Bool := w.isDirectory p || (w.file? p).isSome

/-- Demands a directory at a place. -/
def enter (w : World) (p : Place) : Except PathFault Unit :=
  if w.isDirectory p then .ok ()
  else if (w.file? p).isSome then .error .notDirectory
  else .error .missing

/-- The place that a path leads to, where there need not be anything. -/
def locate (w : World) (path : Bytes) : Except PathFault Place := do
  Path.check path
  (Path.names path).foldlM (fun p name => do w.enter p; p.step name) (Path.origin path)

/-- Makes a directory at a place, unless it is one. -/
def makeDirectory (p : Place) : ExceptT PathFault (StateM World) Unit := do
  match (← get).enter p with
  | .ok _ => pure ()
  | .error .missing => modify fun w => { w with directories := p :: w.directories }
  | .error fault => throw fault

/-- Makes the directory that a path leads to, and each one on the way. -/
def makeDirectories (path : Bytes) : ExceptT PathFault (StateM World) Place := do
  liftExcept (Path.check path)
  let p ← (Path.names path).foldlM
    (fun p name => do makeDirectory p; liftExcept (p.step name)) (Path.origin path)
  makeDirectory p
  return p

/-- Reads a file. -/
def readFile (w : World) (path : Bytes) : Except Bytes Bytes :=
  match w.locate path with
  | .error fault => .error ("open " ++ path ++ ": " ++ fault.message)
  | .ok p =>
    match w.file? p with
    | some content => .ok content
    | none =>
      if w.isDirectory p then .error ("read " ++ path ++ ": is a directory")
      else .error ("open " ++ path ++ ": " ++ PathFault.missing.message)

/-- The world with a store in a directory. -/
def withStore (w : World) (p : Place) (s : Store) : World :=
  { w with stores := (p, s) :: w.stores.filter fun (q, _) => q ≠ p }

/-- Whether the directory of a store seems to exist. A path that leads nowhere
for another reason than that something is missing is not ruled out. -/
def storeExists (w : World) (directory : Bytes) : Bool :=
  match w.locate directory with
  | .ok p => w.isOccupied p
  | .error fault => fault ≠ .missing

/-- Opens the store in a directory. -/
def openStore (w : World) (directory : Bytes) : Except Bytes Store × World :=
  match (makeDirectories directory).run.run w with
  | (.error fault, w) => (.error (directory ++ ": " ++ fault.message), w)
  | (.ok p, w) => (.ok ((w.store? p).getD .empty), w)

/-- Keeps a store in a directory that it was opened in. -/
def keepStore (w : World) (directory : Bytes) (s : Store) : World :=
  match w.locate directory with
  | .ok p => w.withStore p s
  | .error _ => w

/-- Writes a piece to the output. -/
def print (w : World) (piece : Bytes) : Except Bytes Unit × World :=
  match (Sink.write piece).run.run w.output with
  | (.ok _, output) => (.ok (), { w with output })
  | (.error _, output) => (.error w.refusal, { w with output })

/-- The abilities that a world gives. -/
def host (libraries : Libraries) : Host (StateM World) where
  libraries := libraries
  readFile path := return (← get).readFile path
  readInput := return (← get).input
  print piece := modifyGet (print · piece)
  log piece := modify fun w => { w with notes := w.notes.push piece }
  storeExists directory := return (← get).storeExists directory
  openStore directory := modifyGet (openStore · directory)
  keepStore directory s := do
    modify (keepStore · directory s)
    return .ok ()

end World

end LeastModel.Command
