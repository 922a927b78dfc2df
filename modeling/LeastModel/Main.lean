import LeastModel.Command.Run

/-!
# The command line program

Gives a command the abilities of the machine it runs on. A store is kept as one
file in its directory.
-/

namespace LeastModel.Command

/-- A byte string as the text that names a file. -/
def pathText (path : Bytes) : String := String.ofList (Utf8.decode path)

/-- The bytes of a byte array. -/
def bytesOf (a : ByteArray) : Bytes := a.data.toList

/-- The byte array of bytes. -/
def arrayOf (bs : Bytes) : ByteArray := ⟨bs.toArray⟩

/-- The reason for a failure with a file. -/
def fileReason (path : Bytes) : IO.Error → Bytes
  | .noFileOrDirectory .. => "open " ++ path ++ ": no such file or directory"
  | .inappropriateType .. => "read " ++ path ++ ": is a directory"
  | .permissionDenied .. => "open " ++ path ++ ": permission denied"
  | e => "open " ++ path ++ ": " ++ e.toString

/-- Whether there is something at a path. -/
def somethingAt (path : Bytes) : IO Bool := do
  try
    let _ ← IO.FS.realPath (pathText path)
    return true
  catch _ => return false

/-- The file in a directory that holds its store. -/
def storeFile (directory : Bytes) : Bytes := directory ++ "/answers.store"

/-- An action with the reason for its failure. -/
def attempt {α : Type} (reason : IO.Error → Bytes) (action : IO α) : IO (Except Bytes α) := do
  try return .ok (← action)
  catch e => return .error (reason e)

/-- Opens the store in a directory. -/
def openStoreFile (directory : Bytes) : IO Store := do
  IO.FS.createDirAll (pathText directory)
  let file := storeFile directory
  if ← somethingAt file then
    let content ← IO.FS.readBinFile (pathText file)
    match Store.ofSnapshot? (bytesOf content) with
    | some s => return s
    | none => throw (IO.userError "not a store")
  else return .empty

/-- The abilities of the machine. -/
def machine : Host IO where
  libraries := .standard
  readFile path := attempt (fileReason path) do
    return bytesOf (← IO.FS.readBinFile (pathText path))
  readInput := attempt (fun e => e.toString) do
    return bytesOf (← (← IO.getStdin).readBinToEnd)
  print piece := attempt (fun e => e.toString) do
    let out ← IO.getStdout
    out.write (arrayOf piece)
    out.flush
  log piece := do (← IO.getStderr).write (arrayOf piece)
  storeExists := somethingAt
  openStore directory := attempt (fun e => e.toString) (openStoreFile directory)
  keepStore directory s := attempt (fun e => e.toString) do
    IO.FS.writeBinFile (pathText (storeFile directory)) (arrayOf s.snapshot)

end LeastModel.Command

/-- Runs the program. Answers are coloured on a terminal. -/
def main (arguments : List String) : IO UInt32 := do
  let coloured ← (← IO.getStdout).isTty
  LeastModel.Command.machine.execute coloured (arguments.map LeastModel.Bytes.ofString)
