import LeastModel.Config.Settings
import LeastModel.Number.Numeral

/-!
# The flags of the command line

A flag is written after one hyphen or two. Its value follows an equals sign or,
unless the flag wants a truth value, is the next argument; a truth value may be
left out and is then true. The first argument that is no flag ends the flags, and
so does `--`, which is dropped.
-/

namespace LeastModel.Command

/-- What a flag decides. -/
inductive Choice where
  /-- The configuration file; none if empty. -/
  | config (path : Bytes)
  /-- Whether the program is only shown. -/
  | dump (b : Bool)
  /-- Whether the stored queries are listed. -/
  | list (b : Bool)
  /-- Whether the stored answers are shown. -/
  | load (b : Bool)
  /-- A setting, as a configuration file may hold it too. -/
  | setting (s : Setting)
  deriving DecidableEq

/-- A flag: its name, what its value becomes, and what the usage says about it. -/
structure Flag where
  name : Bytes
  slot : Slot Choice
  description : Bytes

/-- All flags in the order in which the usage lists them. -/
def flags : List Flag :=
  [⟨"config", .text .config, "YAML config file"⟩,
   ⟨"dump", .truth .dump, "print the parsed program and exit"⟩,
   ⟨"format", .text (.setting ∘ .format), "answer format: text or table (default \"text\")"⟩,
   ⟨"graph", .truth (.setting ∘ .graph), "print the rule dependency graph and rule groups"⟩,
   ⟨"list", .truth .list, "list the queries saved in -store and exit"⟩,
   ⟨"load", .truth .load, "print the answers saved in -store and exit"⟩,
   ⟨"max-passes", .whole (.setting ∘ .maxPasses),
    "abort when a rule group needs more passes (0 = unlimited)"⟩,
   ⟨"no-validate", .truth fun b => .setting (.validateRules !b),
    "skip rule checks before evaluation"⟩,
   ⟨"store", .text (.setting ∘ .store), "directory of a badger answer store to save answers to"⟩,
   ⟨"trace-joins", .truth (.setting ∘ .traceJoins), "annotate every join (with -verbose)"⟩,
   ⟨"verbose", .truth (.setting ∘ .verbose), "verbose mode (show evaluation annotations)"⟩]

/-- What the usage calls the value of a flag. A truth value is not mentioned. -/
def valueName : Slot Choice → Bytes
  | .text _ => " string"
  | .whole _ => " int"
  | .truth _ => []

/-- What the usage says about a flag. -/
def Flag.usage (f : Flag) : Bytes :=
  "  -" ++ f.name ++ valueName f.slot ++ "\n    \t" ++ f.description ++ "\n"

/-- How the program is used. -/
def usage : Bytes :=
  "Usage: datalog [options] [program.dl | -]\n\n" ++
  "Evaluates a Datalog program and prints the answer to each query.\n\n" ++
  "Options:\n" ++ flags.flatMap Flag.usage ++ "\nExamples:\n" ++
  "  datalog family.dl                  # Evaluate and print answers\n" ++
  "  datalog -format table family.dl    # Answers as markdown tables\n" ++
  "  datalog -verbose -graph family.dl  # Show rule groups and annotations\n" ++
  "  datalog -store answers family.dl   # Save answers to a badger store\n" ++
  "  datalog -store answers -load       # Print saved answers\n"

/-- What is wrong with a flag. -/
inductive FlagFault where
  /-- Nothing is wrong: the usage is asked for. -/
  | help
  | malformed (argument : Bytes)
  | unknown (name : Bytes)
  | noValue (name : Bytes)
  | noTruth (name value : Bytes)
  | noInteger (name value : Bytes) (fault : Number.NumeralFault)
  deriving DecidableEq

/-- The wording of a failure. -/
def FlagFault.message : FlagFault → Bytes
  | help => "flag: help requested"
  | malformed argument => "bad flag syntax: " ++ argument
  | unknown name => "flag provided but not defined: -" ++ name
  | noValue name => "flag needs an argument: -" ++ name
  | noTruth name value =>
    "invalid boolean value " ++ Text.quoted value ++ " for -" ++ name ++ ": parse error"
  | noInteger name value fault =>
    "invalid value " ++ Text.quoted value ++ " for flag -" ++ name ++ ": " ++
      (match fault with
       | .malformed => "parse error"
       | .outOfRange => "value out of range" : String)

/-- What is told about a failure: its wording and the usage, or the usage alone
if that is all that was asked for. -/
def FlagFault.report : FlagFault → Bytes
  | help => usage
  | fault => fault.message ++ "\n" ++ usage

/-- A truth value as it is written on the command line. -/
def truth? (value : Bytes) : Option Bool :=
  if value ∈ ["1", "t", "T", "TRUE", "true", "True"].map Bytes.ofString then some true
  else if value ∈ ["0", "f", "F", "FALSE", "false", "False"].map Bytes.ofString then some false
  else none

/-- The hyphen, with which flags start. -/
def hyphen : UInt8 := 0x2D

/-- The sign between a flag and its value. -/
def equals : UInt8 := 0x3D

/-- An argument as far as flags are concerned. -/
inductive Argument where
  /-- No flag. -/
  | other
  /-- The end of the flags. -/
  | divider
  | malformed
  /-- A flag, and the value that is written with it. -/
  | flag (name : Bytes) (value : Option Bytes)
  deriving DecidableEq

/-- Splits a flag without its hyphens. -/
def Argument.ofBody (body : Bytes) : Argument :=
  match body with
  | [] => .malformed
  | b :: rest =>
    if b = hyphen ∨ b = equals then .malformed
    else
      match rest.dropWhile (· ≠ equals) with
      | [] => .flag body none
      | _ :: value => .flag (b :: rest.takeWhile (· ≠ equals)) (some value)

/-- Tells what an argument is. -/
def Argument.of (argument : Bytes) : Argument :=
  match argument with
  | a :: b :: rest =>
    if a ≠ hyphen then .other
    else if b ≠ hyphen then .ofBody (b :: rest)
    else if rest.isEmpty then .divider
    else .ofBody rest
  | _ => .other

/-- What a given value of a flag decides. -/
def Flag.choose (f : Flag) (value : Bytes) : Except FlagFault Choice :=
  match f.slot with
  | .text of => .ok (of value)
  | .truth of =>
    match truth? value with
    | some b => .ok (of b)
    | none => .error (.noTruth f.name value)
  | .whole of =>
    match Number.signed (Utf8.decode value) with
    | .ok n => .ok (of n)
    | .error fault => .error (.noInteger f.name value fault)

/-- The flag of a given name. -/
def findFlag (name : Bytes) : Except FlagFault Flag :=
  match flags.find? (·.name = name) with
  | some f => .ok f
  | none => .error (if name = "help" ∨ name = "h" then .help else .unknown name)

/-- What the flags in front of the arguments decide, in order, and the arguments
that follow them. -/
def readFlags : List Bytes → Except FlagFault (List Choice × List Bytes)
  | [] => .ok ([], [])
  | argument :: rest =>
    match Argument.of argument with
    | .other => .ok ([], argument :: rest)
    | .divider => .ok ([], rest)
    | .malformed => .error (.malformed argument)
    | .flag name value =>
      match findFlag name with
      | .error fault => .error fault
      | .ok f =>
        match value, f.slot, rest with
        | some value, _, rest => do
          let choice ← f.choose value
          let (choices, rest) ← readFlags rest
          return (choice :: choices, rest)
        | none, .truth of, rest => do
          let (choices, rest) ← readFlags rest
          return (of true :: choices, rest)
        | none, _, [] => .error (.noValue name)
        | none, _, value :: rest => do
          let choice ← f.choose value
          let (choices, rest) ← readFlags rest
          return (choice :: choices, rest)

end LeastModel.Command
