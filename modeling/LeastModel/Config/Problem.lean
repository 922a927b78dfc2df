import LeastModel.Config.Fault
import LeastModel.Config.Value

/-!
# What is wrong with a configuration file

What does not fit is noted with its line, and reading goes on. Other failures end
the reading at once, and some of them end the program.
-/

namespace LeastModel.Config

/-- What does not fit in a configuration file. Lines are counted from one. -/
inductive Problem where
  /-- A key that has been named before. -/
  | repeated (line : Nat) (key : Bytes) (first : Nat)
  /-- A key that is no setting's name. -/
  | unknown (line : Nat) (key : Bytes)
  /-- A key that names the setting of an earlier one in another way. -/
  | decided (line : Nat) (key : Bytes)
  /-- A value of a form that is not wanted: its tag, its text, and what is wanted. -/
  | misfit (line : Nat) (tag text : Bytes) (wanted : Bytes)
  deriving DecidableEq

namespace Problem

/-- A text between backquotes; of a long one only the start is shown. -/
def excerpt (text : Bytes) : Bytes :=
  if 10 < text.length then "`" ++ text.take 7 ++ "...`" else "`" ++ text ++ "`"

/-- The wording of a problem. The text of a sequence or mapping is not shown. -/
def message : Problem → Bytes
  | repeated line key first =>
    "line " ++ Bytes.ofNat line ++ ": mapping key " ++ Text.quoted key ++
      " already defined at line " ++ Bytes.ofNat first
  | unknown line key =>
    "line " ++ Bytes.ofNat line ++ ": field " ++ key ++ " not found in type main.Config"
  | decided line key =>
    "line " ++ Bytes.ofNat line ++ ": field " ++ key ++ " already set in type main.Config"
  | misfit line tag text wanted =>
    "line " ++ Bytes.ofNat line ++ ": cannot unmarshal " ++ tag ++
      (if tag = "!!seq" ∨ tag = "!!map" then text else " " ++ excerpt text) ++ " into " ++ wanted

end Problem

/-- Why the reading of a configuration file is given up. -/
inductive Refusal where
  /-- A scalar that is not what its tag says: the tag of what it is, its text, and
  the tag. -/
  | mistagged (meant text tag : Bytes)
  | badBinary
  | badMerge
  /-- A sequence or mapping is the key of a value: its wording. -/
  | badKey (wording : Bytes)
  /-- A node is reached from itself by a reference to an anchor. -/
  | endless (anchor : Bytes)
  /-- Nearly all nodes are reached by references. -/
  | tooManyReferences
  deriving DecidableEq

/-- The wording of a refusal. -/
def Refusal.message : Refusal → Bytes
  | mistagged meant text tag =>
    "cannot decode " ++ meant ++ " `" ++ text ++ "` as a " ++ tag
  | badBinary => "!!binary value contains invalid base64 data"
  | badMerge => "map merge requires map or sequence of maps as the value"
  | badKey wording => "invalid map key: " ++ wording
  | endless anchor => "anchor '" ++ anchor ++ "' value contains itself"
  | tooManyReferences => "document contains excessive aliasing"

/-- What in a configuration file ends the program without a message. -/
inductive Collapse where
  /-- A sequence or mapping is a key of a mapping that others are merged into, or
  that is merged into another. -/
  | compoundKey
  /-- A mapping whose tag says that it is nothing names an option of the evaluation. -/
  | optionOfNothing
  deriving DecidableEq

/-- Why a configuration file cannot be used. -/
inductive ConfigFault where
  | noDocument (fault : DocumentFault)
  | refused (cause : Refusal)
  | problems (ps : List Problem)
  | collapsed (cause : Collapse)
  deriving DecidableEq

/-- The wording of a failure. A collapse has none. -/
def ConfigFault.message : ConfigFault → Bytes
  | noDocument fault => "yaml: " ++ fault.message
  | refused cause => "yaml: " ++ cause.message
  | problems ps =>
    "yaml: unmarshal errors:" ++ ps.flatMap fun p => ("\n  " ++ p.message : Bytes)
  | collapsed _ => []

end LeastModel.Config
