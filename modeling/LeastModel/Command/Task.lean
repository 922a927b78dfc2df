import LeastModel.Command.Flag
import LeastModel.Config.Problem
import LeastModel.Program.Parser
import LeastModel.Store.Fault

/-!
# What the command line asks for

The flags decide on top of the configuration file, which decides on top of the
defaults. What remains of the arguments is the program file, at most one.
-/

namespace LeastModel.Command

/-- Why a command fails. -/
inductive CommandFault where
  | flag (fault : FlagFault)
  | configUnreadable (reason : Bytes)
  | configUnusable (path : Bytes) (fault : Config.ConfigFault)
  | unknownStyle (name : Bytes)
  | tooManyFiles (count : Nat)
  | storeNotNamed
  | programNotNamed
  | programUnreadable (reason : Bytes)
  | inputUnreadable (reason : Bytes)
  | programMalformed (fault : SyntaxError)
  | evaluationFailed (fault : Fault)
  | storeMissing (directory : Bytes)
  | storeUnusable (reason : Bytes)
  | storeFailed (fault : StoreFault)
  | outputRefused (reason : Bytes)
  deriving DecidableEq

/-- The wording of a failure. -/
def CommandFault.message : CommandFault → Bytes
  | flag fault => fault.message
  | configUnreadable reason => "failed to read config: " ++ reason
  | configUnusable path fault => "failed to parse config " ++ path ++ ": " ++ fault.message
  | unknownStyle name => AnswerStyle.unknownMessage name
  | tooManyFiles count => "expected one program file, got " ++ Bytes.ofNat count
  | storeNotNamed => "-list and -load need -store"
  | programNotNamed => "no program file given (use - for stdin)"
  | programUnreadable reason => "failed to read program: " ++ reason
  | inputUnreadable reason => "failed to read program from stdin: " ++ reason
  | programMalformed fault => "datalog parse error: " ++ fault.message
  | evaluationFailed fault => "evaluation failed: " ++ fault.message
  | storeMissing directory => "store does not exist: " ++ directory
  | storeUnusable reason => "failed to open badger: " ++ reason
  | storeFailed fault => fault.message
  | outputRefused reason => reason

/-- Whether a failure ends the program without a message. -/
def CommandFault.isCollapse : CommandFault → Bool
  | configUnusable _ (.collapsed _) => true
  | _ => false

/-- Everything that the command line decides. -/
structure Task where
  settings : Settings
  style : AnswerStyle
  file : Bytes
  dump : Bool
  list : Bool
  load : Bool
  deriving DecidableEq

/-- The last configuration file that is named; empty if there is none. -/
def configPath (choices : List Choice) : Bytes :=
  choices.foldl (fun path choice =>
    match choice with
    | .config path => path
    | _ => path) []

/-- The settings among the choices, in order. -/
def settingsAmong (choices : List Choice) : List Setting :=
  choices.filterMap fun choice =>
    match choice with
    | .setting s => some s
    | _ => none

/-- Whether the last choice that `pick` picks says yes. -/
def lastPicked (pick : Choice → Option Bool) (choices : List Choice) : Bool :=
  (choices.filterMap pick).getLast?.getD false

/-- The task that flags and files set, on top of the settings of a configuration
file. -/
def Task.of (base : Settings) (choices : List Choice) (files : List Bytes) :
    Except CommandFault Task := do
  let settings := base.takeAll (settingsAmong choices)
  let dump := lastPicked (fun | .dump b => some b | _ => none) choices
  let list := lastPicked (fun | .list b => some b | _ => none) choices
  let load := lastPicked (fun | .load b => some b | _ => none) choices
  match AnswerStyle.ofName? settings.format with
  | none => throw (.unknownStyle settings.format)
  | some style =>
    if 1 < files.length then throw (.tooManyFiles files.length)
    let file := files.headD []
    if (list || load) && settings.store.isEmpty then throw .storeNotNamed
    if file.isEmpty && !list && !load then throw .programNotNamed
    return { settings, style, file, dump, list, load }

end LeastModel.Command
