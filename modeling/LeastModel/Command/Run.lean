import LeastModel.Command.Task
import LeastModel.Config.Reading
import LeastModel.Evaluation.Run
import LeastModel.Event.Rendering
import LeastModel.Store.Basic

/-!
# Carrying out a command

A command reads files and its input, writes to its output and its log, and opens
stores of answers. These abilities are a record over any monad, so that a
command can be run in the real world as well as in a world that is a value. Two
functions are taken from libraries, and nothing here depends on which they are.
-/

namespace LeastModel.Command

/-- What is taken from libraries: how tables are laid out, and what the text of a
configuration file decides. -/
structure Libraries where
  layout : Table.Layout
  readConfig : (file : Bytes) → Except Config.ConfigFault (List Setting)

/-- The libraries in use. -/
def Libraries.standard : Libraries := ⟨Table.markdown, Config.read⟩

/-- The abilities of the surroundings. An ability that may fail gives the reason. -/
structure Host (m : Type → Type) where
  libraries : Libraries
  readFile : (path : Bytes) → m (Except Bytes Bytes)
  readInput : m (Except Bytes Bytes)
  /-- Writes a piece to the output. -/
  print : (piece : Bytes) → m (Except Bytes Unit)
  /-- Writes a piece to the log. -/
  log : (piece : Bytes) → m Unit
  storeExists : (directory : Bytes) → m Bool
  /-- The store in a directory, which is created if there is none. -/
  openStore : (directory : Bytes) → m (Except Bytes Store)
  keepStore : (directory : Bytes) → Store → m (Except Bytes Unit)

/-- The hash that tells tuples apart. -/
abbrev digest : Digest := Xxh64.digest

variable {m : Type → Type} [Monad m]

/-- A step that ends the command if it fails. -/
def orElseFail {ε α : Type} (cause : ε → CommandFault) (step : m (Except ε α)) :
    ExceptT CommandFault m α := do
  match ← step with
  | .ok a => return a
  | .error reason => throw (cause reason)

namespace Host

/-- The settings of a configuration file on top of the defaults. -/
def baseSettings (h : Host m) (path : Bytes) : ExceptT CommandFault m Settings := do
  if path.isEmpty then return {}
  let file ← orElseFail .configUnreadable (h.readFile path)
  match h.libraries.readConfig file with
  | .ok settings => return Settings.takeAll {} settings
  | .error fault => throw (.configUnusable path fault)

/-- The task that arguments set. What is wrong with a flag is logged. -/
def task (h : Host m) (arguments : List Bytes) : ExceptT CommandFault m Task := do
  match readFlags arguments with
  | .error fault =>
    h.log fault.report
    throw (.flag fault)
  | .ok (choices, files) =>
    let base ← h.baseSettings (configPath choices)
    match Task.of base choices files with
    | .ok task => return task
    | .error fault => throw fault

/-- Writes a piece to the output or ends the command. -/
def printOrFail (h : Host m) (piece : Bytes) : ExceptT CommandFault m Unit :=
  orElseFail .outputRefused (h.print piece)

/-- Writes a piece to the output, or does not. -/
def printIfPossible (h : Host m) (piece : Bytes) : ExceptT CommandFault m Unit := do
  let _ ← h.print piece

/-- The name that stands for the input instead of a file. -/
def inputName : Bytes := "-"

/-- Reads the text of a program. -/
def readProgram (h : Host m) (file : Bytes) : ExceptT CommandFault m Bytes :=
  if file = inputName then orElseFail .inputUnreadable h.readInput
  else orElseFail .programUnreadable (h.readFile file)

/-- Shows answers. -/
def report (h : Host m) (coloured : Bool) (style : AnswerStyle) (answers : List (Answer digest)) :
    ExceptT CommandFault m Unit :=
  Report.write h.printOrFail h.libraries.layout coloured style (answers.map Report.entryOf)

/-- Lists the queries of a store, or shows its answers. -/
def showStored (h : Host m) (coloured : Bool) (t : Task) : ExceptT CommandFault m Unit := do
  let directory := t.settings.store
  if !(← h.storeExists directory) then throw (.storeMissing directory)
  let store ← orElseFail .storeUnusable (h.openStore directory)
  if t.list then
    let queries ← orElseFail .storeFailed (pure store.list)
    queries.forM fun query => h.printIfPossible (query ++ "\n")
  else
    let answers ← orElseFail .storeFailed (pure store.load)
    h.report coloured t.style answers

/-- Stores answers in a directory. -/
def saveAnswers (h : Host m) (directory : Bytes) (answers : List (Answer digest)) :
    ExceptT CommandFault m Unit := do
  let store ← orElseFail .storeUnusable (h.openStore directory)
  let (outcome, store) := store.save Xxh64.digest none answers
  orElseFail .storeUnusable (h.keepStore directory store)
  orElseFail .storeFailed (pure outcome)
  let tuples := Number.total (answers.map (·.relation.size))
  h.log ("Saved " ++ Number.grouped answers.length ++ " answers (" ++ Number.grouped tuples ++
    " tuples) to " ++ directory ++ "\n")

/-- Evaluates a program and shows its answers. -/
def evaluate (h : Host m) (coloured : Bool) (t : Task) (p : Program) :
    ExceptT CommandFault m Unit := do
  let (outcome, observer) :=
    (p.evaluateObserved t.settings.options).run.run (.new t.settings.verbose)
  observer.recorder.events.toList.forM fun e => h.log (e.line false)
  let result ← orElseFail .evaluationFailed (pure outcome)
  if t.settings.graph then h.printIfPossible (result.plan.render ++ "\n")
  h.report coloured t.style result.answers
  if !t.settings.store.isEmpty then h.saveAnswers t.settings.store result.answers

/-- Carries out a task. -/
def run (h : Host m) (coloured : Bool) (t : Task) : ExceptT CommandFault m Unit := do
  if t.list || t.load then h.showStored coloured t
  else
    let source ← h.readProgram t.file
    let program ← orElseFail .programMalformed (pure (Program.parse source))
    if t.dump then h.printOrFail program.render else h.evaluate coloured t program

/-- A text with a line feed at its end. -/
def asLine (text : Bytes) : Bytes := if text.getLast? = some 0x0A then text else text ++ "\n"

/-- Carries out what arguments ask for; the result is the exit code. A failure
is logged, unless it is a collapse. Whoever asks for the usage has succeeded. -/
def execute (h : Host m) (coloured : Bool) (arguments : List Bytes) : m UInt32 := do
  let outcome ← (do h.run coloured (← h.task arguments) : ExceptT CommandFault m Unit).run
  match outcome with
  | .ok _ => return 0
  | .error (.flag .help) => return 0
  | .error fault =>
    if fault.isCollapse then return 2
    h.log (asLine fault.message)
    return 1

end Host

end LeastModel.Command
