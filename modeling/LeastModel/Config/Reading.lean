import LeastModel.Config.Document
import LeastModel.Config.Problem
import LeastModel.Config.Settings
import LeastModel.Text.Base64

/-!
# The settings in a configuration file

The document of a file is a mapping from the names of settings to their values.
Whatever does not fit is noted with its line, and reading goes on; but a mapping
that names a key twice is not looked at any further. A value that is nothing
decides nothing. The key of two less-than signs has mappings as its value, whose
pairs count where the mapping itself and earlier ones do not have the key.

No setting is a mapping, but the keys of a mapping that others are merged into may
be values of any form. They are read as such before anything is merged.
-/

namespace LeastModel.Config

/-! ## Scalars -/

/-- The scalars besides the truth values themselves that say yes where a truth
value is wanted. -/
def yesWords : List Bytes := ["y", "Y", "yes", "Yes", "YES", "on", "On", "ON"]

/-- The scalars that say no in the same way. -/
def noWords : List Bytes := ["n", "N", "no", "No", "NO", "off", "Off", "OFF"]

/-- The tag of nothing. -/
def nothingTag : Bytes := "!!null"

/-- The tags that tell what a scalar is by its looks. -/
def lookTags : List Bytes := ["!!bool", "!!int", "!!float", nothingTag, "!!timestamp"]

/-- The meaning of a scalar with a tag, and its text. Under a tag of one's own
every scalar is a text. -/
def meaning (tag : Bytes) (text : List Char) : Except Refusal (Scalar × Bytes) :=
  let bytes := Utf8.encode text
  if tag = "!!binary" then
    match Text.Base64.decode? bytes with
    | some data => .ok (.text data, data)
    | none => .error .badBinary
  else if lookTags.contains tag then
    let meant := Scalar.ofPlain (tag == "!!timestamp") text
    if meant.tag = tag then .ok (meant, bytes)
    else
      match (if tag = "!!float" then meant.asReal? else none) with
      | some x => .ok (.real x, bytes)
      | none => .error (.mistagged meant.tag bytes tag)
  else .ok (.text bytes, bytes)

/-- What a slot is said to want. -/
def wanted {α : Type} : Slot α → Bytes
  | .text _ => "string"
  | .truth _ => "bool"
  | .whole _ => "int"

/-- What a scalar that is not nothing becomes; none if it does not fit. Every
scalar fits where a text is wanted. -/
def ofScalar? {α : Type} (slot : Slot α) (meaning : Scalar) (text : Bytes) : Option α :=
  match slot with
  | .text of => some (of text)
  | .truth of =>
    match meaning with
    | .truth b => some (of b)
    | .text s =>
      if yesWords.contains s then some (of true)
      else if noWords.contains s then some (of false)
      else none
    | _ => none
  | .whole of =>
    match meaning with
    | .integer n => if n < Number.signedEnd then some (of n) else none
    | .real x => x.toInt?.map of
    | _ => none

/-! ## Keys -/

/-- What a node is, whatever it stands for. -/
inductive NodeForm where
  | scalar
  | sequence
  | mapping
  | reference
  deriving DecidableEq

/-- How a key is told apart from others, and its line. -/
structure KeyLook where
  form : NodeForm
  text : Bytes
  line : Nat

/-- The look of a key. -/
def KeyLook.of (key : Node) : KeyLook :=
  match key with
  | .scalar line _ text => ⟨.scalar, Utf8.encode text, line⟩
  | .sequence line _ _ => ⟨.sequence, [], line⟩
  | .mapping line _ _ => ⟨.mapping, [], line⟩
  | .reference mark name _ => ⟨.reference, name, mark.line + 1⟩

/-- The keys that repeat an earlier one, for each earlier one in turn. -/
def repetitionsOf : List KeyLook → List Problem
  | [] => []
  | k :: ks =>
    (ks.filter fun l => l.form = k.form && l.text = k.text).map
      (fun l => .repeated l.line k.text k.line) ++ repetitionsOf ks

/-- The keys of pairs that repeat an earlier one. -/
def repetitions (pairs : List (Node × Node)) : List Problem :=
  repetitionsOf (pairs.map fun pair => KeyLook.of pair.1)

/-- Whether a key stands for the merging of mappings. -/
def isMerge : Node → Bool
  | .scalar _ tag text => tag = "!!merge" && text = ['<', '<']
  | _ => false

/-- What is merged into a mapping with the given pairs: the last of the values
under the merging key. -/
def merged? (pairs : List (Node × Node)) : Option Node :=
  ((pairs.filter fun pair => isMerge pair.1).getLast?).map (·.2)

namespace Document

/-- The node that a node stands for. -/
def resolve (document : Document) : Node → Option Node
  | .reference _ _ target => document.anchored.lookup target
  | node => some node

/-- Whether a node stands for a mapping. -/
def isMapping (document : Document) (node : Node) : Bool :=
  match document.resolve node with
  | some (.mapping ..) => true
  | _ => false

/-- The tag of what a node stands for. -/
def tagOf (document : Document) (node : Node) : Bytes :=
  match document.resolve node with
  | some (.scalar _ tag _) => tag
  | some (.sequence _ tag _) => tag
  | some (.mapping _ tag _) => tag
  | _ => []

/-- Whether all keys of a mapping, but for the merging one, are said to be texts. -/
def hasTextKeys (document : Document) (pairs : List (Node × Node)) : Bool :=
  let tags := pairs.map fun pair => document.tagOf pair.1
  tags.all fun tag => tag = "!!str" || tag = "!!merge"

end Document

/-! ## Findings -/

/-- What has been found out so far. -/
structure Findings where
  /-- The latest first. -/
  problems : List Problem := []
  /-- How many nodes have been looked at. -/
  visits : Nat := 0
  /-- How many of them on the way from a reference. -/
  borrowed : Nat := 0
  /-- The keys that do not count in the next mapping, if it is merged into another. -/
  hidden : Option (List Scalar) := none

/-- A reader of nodes. -/
abbrev Find := StateT Findings (Except ConfigFault)

namespace Find

/-- Notes problems. -/
def note (problems : List Problem) : Find Unit :=
  modify fun f => { f with problems := problems.reverse ++ f.problems }

/-- Sets the keys that do not count in the next mapping. -/
def hide (keys : Option (List Scalar)) : Find Unit :=
  modify fun f => { f with hidden := keys }

/-- The keys that do not count in a mapping that starts, which are those of no
other mapping inside of it. -/
def takeHidden : Find (Option (List Scalar)) := do
  let hidden := (← get).hidden
  hide none
  return hidden

/-- How many of 360000000 nodes may be looked at on the way from a reference: ninety-nine
hundredths of up to 400000, then ever fewer down to a tenth of 4000000 and more. -/
def allowedShare (visits : Nat) : Nat := 356400000 - 89 * (min visits 4000000 - 400000)

/-- Whether references make up too much of a document. A small document may have any
number of them. -/
def isExcessive (visits borrowed : Nat) : Bool :=
  100 < borrowed && 1000 < visits && allowedShare visits * visits < borrowed * 360000000

/-- Counts a node. `followed` holds the references on the way to it. -/
def visit (followed : List Mark) : Find Unit := do
  let f ← get
  let visits := f.visits + 1
  let borrowed := if followed.isEmpty then f.borrowed else f.borrowed + 1
  if isExcessive visits borrowed then throw (.refused .tooManyReferences)
  set { f with visits := visits, borrowed := borrowed }

/-- Comes to a node, or to the one that it refers to. The result tells the references
on the way to it. -/
def reach (document : Document) (followed : List Mark) (node : Node) :
    Find (List Mark × Node) := do
  visit followed
  match node with
  | .reference mark name target =>
    if followed.contains mark then throw (.refused (.endless name))
    visit (mark :: followed)
    return (mark :: followed, (document.anchored.lookup target).getD node)
  | _ => return (followed, node)

/-- The meaning of a scalar with a tag, and its text. -/
def meaning (tag : Bytes) (text : List Char) : Find (Scalar × Bytes) :=
  match Config.meaning tag text with
  | .ok found => return found
  | .error cause => throw (.refused cause)

/-- Notes that a mapping is not wanted, or that it repeats keys. -/
def refuseMapping (line : Nat) (tag wanted : Bytes) (pairs : List (Node × Node)) : Find Unit :=
  match repetitions pairs with
  | [] => note [.misfit line tag [] wanted]
  | problems => note problems

end Find

/-- What a node becomes where a slot wants a value. Nothing becomes nothing. -/
def fill {α : Type} (document : Document) (followed : List Mark) (slot : Slot α) (node : Node) :
    Find (Option α) := do
  match (← Find.reach document followed node).2 with
  | .scalar line tag text =>
    let (meaning, bytes) ← Find.meaning tag text
    if meaning = .nothing then return none
    match ofScalar? slot meaning bytes with
    | some a => return some a
    | none =>
      Find.note [.misfit line tag (Utf8.encode text) (wanted slot)]
      return none
  | .sequence line tag _ =>
    Find.note [.misfit line tag [] (wanted slot)]
    return none
  | .mapping line tag pairs =>
    Find.refuseMapping line tag (wanted slot) pairs
    return none
  | .reference .. => return none

/-! ## Mappings -/

/-- The settings by name that are no options of the evaluation. -/
def ownSlots : List (Bytes × Slot Setting) :=
  [("format", .text .format), ("verbose", .truth .verbose), ("store", .text .store),
   ("graph", .truth .graph)]

/-- The options of the evaluation by name. -/
def optionSlots : List (Bytes × Slot Setting) :=
  [("max_passes", .whole .maxPasses), ("validate_rules", .truth .validateRules),
   ("trace_joins", .truth .traceJoins)]

/-- The settings by name. -/
def slots : List (Bytes × Slot Setting) := ownSlots ++ optionSlots

/-- What the pairs of a mapping go into. -/
inductive Holder where
  /-- Decisions, the latest first. -/
  | settings (decided : List Setting)
  /-- The entries of a value; `texts` tells that its keys are texts. -/
  | entries (texts : Bool) (found : List (Scalar × Value))

/-- Whether a key is hidden. -/
def isHidden (hidden : Option (List Scalar)) (key : Scalar) : Bool :=
  hidden.any (·.any (·.same key))

/-- Takes decisions from the pairs of a mapping with a tag. `hidden` holds the keys
that do not count because the mapping is merged into one that has them, and grows by
the keys of the pairs; `done` holds the settings that the mapping has decided. -/
def settingsFrom (document : Document) (followed : List Mark) (tag : Bytes) :
    (decided : List Setting) → (hidden : Option (List Scalar)) → (done : List Bytes) →
    List (Node × Node) → Find (List Setting × Option (List Scalar))
  | decided, hidden, _, [] => return (decided, hidden)
  | decided, hidden, done, (key, value) :: rest => do
    if isMerge key then settingsFrom document followed tag decided hidden done rest
    else
      match ← fill document followed (.text id) key with
      | none => settingsFrom document followed tag decided hidden done rest
      | some name =>
        if isHidden hidden (.text name) then
          settingsFrom document followed tag decided hidden done rest
        else
          let hidden := hidden.map (.text name :: ·)
          match slots.lookup name with
          | none =>
            Find.note [.unknown key.line name]
            settingsFrom document followed tag decided hidden done rest
          | some slot =>
            if done.contains name then
              Find.note [.decided key.line name]
              settingsFrom document followed tag decided hidden done rest
            else if tag = nothingTag && (optionSlots.lookup name).isSome then
              Find.visit followed
              throw (.collapsed .optionOfNothing)
            else
              let decision ← fill document followed slot value
              settingsFrom document followed tag (decision.toList ++ decided) hidden
                (name :: done) rest

mutual

/-- The value that a node is; none if it repeats keys. -/
def valueOf (document : Document) : (fuel : Nat) → (followed : List Mark) → Node →
    Find (Option Value)
  | 0, _, _ => return none
  | fuel + 1, followed, node => do
    match ← Find.reach document followed node with
    | (_, .scalar _ tag text) => return some (.scalar (← Find.meaning tag text).1)
    | (followed, .sequence _ _ items) =>
      return some (.sequence (← valuesOf document fuel followed items))
    | (followed, .mapping _ tag pairs) =>
      match ← hold document fuel followed tag pairs (.entries (document.hasTextKeys pairs) []) with
      | some (.entries texts found) => return some (.mapping texts found)
      | _ => return none
    | (_, .reference ..) => return none

/-- The values that nodes are, without those that are none. -/
def valuesOf (document : Document) : (fuel : Nat) → (followed : List Mark) → List Node →
    Find (List Value)
  | 0, _, _ => return []
  | _ + 1, _, [] => return []
  | fuel + 1, followed, node :: nodes => do
    let value ← valueOf document fuel followed node
    return value.toList ++ (← valuesOf document fuel followed nodes)

/-- Takes entries from the pairs of a mapping; `hidden` is as for settings. -/
def entriesFrom (document : Document) : (fuel : Nat) → (followed : List Mark) →
    (texts : Bool) → (found : List (Scalar × Value)) → (hidden : Option (List Scalar)) →
    List (Node × Node) → Find (List (Scalar × Value) × Option (List Scalar))
  | 0, _, _, found, hidden, _ => return (found, hidden)
  | _ + 1, _, _, found, hidden, [] => return (found, hidden)
  | fuel + 1, followed, texts, found, hidden, (node, content) :: rest => do
    if isMerge node then entriesFrom document fuel followed texts found hidden rest
    else
      let key ←
        if texts then do
          let name ← fill document followed (.text id) node
          pure (name.map fun s => .scalar (.text s))
        else valueOf document fuel followed node
      match key with
      | none => entriesFrom document fuel followed texts found hidden rest
      | some (.scalar key) =>
        if isHidden hidden key then entriesFrom document fuel followed texts found hidden rest
        else
          let hidden := hidden.map (key :: ·)
          let found ←
            match ← valueOf document fuel followed content with
            | some value => pure (putEntry key value found)
            | none =>
              if document.tagOf content = nothingTag && !found.any (·.1.same key) then
                pure (putEntry key (.scalar .nothing) found)
              else pure found
          entriesFrom document fuel followed texts found hidden rest
      | some compound =>
        if hidden.isSome then throw (.collapsed .compoundKey)
        else throw (.refused (.badKey compound.wording))

/-- Puts the pairs of a mapping with a tag into a holder, and then what is merged into
the mapping; none if it repeats keys. -/
def hold (document : Document) : (fuel : Nat) → (followed : List Mark) → (tag : Bytes) →
    List (Node × Node) → Holder → Find (Option Holder)
  | 0, _, _, _, _ => return none
  | fuel + 1, followed, tag, pairs, holder => do
    match repetitions pairs with
    | [] =>
      let hidden ← Find.takeHidden
      let (holder, hidden) ←
        match holder with
        | .settings decided => do
          let (decided, hidden) ← settingsFrom document followed tag decided hidden [] pairs
          pure (Holder.settings decided, hidden)
        | .entries texts found => do
          let (found, hidden) ← entriesFrom document fuel followed texts found hidden pairs
          pure (Holder.entries texts found, hidden)
      Find.hide hidden
      match merged? pairs with
      | none => return some holder
      | some node =>
        if hidden.isSome then return some (← merge document fuel followed node holder)
        else
          Find.hide (some [])
          hideKeys document fuel followed (pairs.map (·.1))
          let holder ← merge document fuel followed node holder
          Find.hide none
          return some holder
    | problems =>
      Find.note problems
      return none

/-- Hides keys in what is merged. -/
def hideKeys (document : Document) : (fuel : Nat) → (followed : List Mark) → List Node → Find Unit
  | 0, _, _ => return
  | _ + 1, _, [] => return
  | fuel + 1, followed, node :: nodes => do
    match ← valueOf document fuel followed node with
    | none => pure ()
    | some (.scalar key) => Find.hide ((← get).hidden.map (key :: ·))
    | some _ => throw (.collapsed .compoundKey)
    hideKeys document fuel followed nodes

/-- Puts what is merged into a holder: a mapping or a sequence of them. -/
def merge (document : Document) : (fuel : Nat) → (followed : List Mark) → Node → Holder →
    Find Holder
  | 0, _, _, holder => return holder
  | fuel + 1, followed, .sequence _ _ items, holder => mergeAll document fuel followed items holder
  | fuel + 1, followed, node, holder => mergeOne document fuel followed node holder

/-- Puts mappings into a holder, one after another. -/
def mergeAll (document : Document) : (fuel : Nat) → (followed : List Mark) → List Node → Holder →
    Find Holder
  | 0, _, _, holder => return holder
  | _ + 1, _, [], holder => return holder
  | fuel + 1, followed, node :: nodes, holder => do
    let holder ← mergeOne document fuel followed node holder
    mergeAll document fuel followed nodes holder

/-- Puts a mapping into a holder. -/
def mergeOne (document : Document) : (fuel : Nat) → (followed : List Mark) → Node → Holder →
    Find Holder
  | 0, _, _, holder => return holder
  | fuel + 1, followed, node, holder => do
    if document.isMapping node then
      match ← Find.reach document followed node with
      | (followed, .mapping _ tag pairs) =>
        return (← hold document fuel followed tag pairs holder).getD holder
      | _ => return holder
    else throw (.refused .badMerge)

end

/-! ## Files -/

/-- The decisions in a document, in order. -/
def settingsOf (document : Document) (fuel : Nat) : Find (List Setting) := do
  Find.visit []
  match (← Find.reach document [] document.root).2 with
  | .scalar line tag text =>
    if (← Find.meaning tag text).1 ≠ .nothing then
      Find.note [.misfit line tag (Utf8.encode text) "main.Config"]
    return []
  | .sequence line tag _ =>
    Find.note [.misfit line tag [] "main.Config"]
    return []
  | .mapping _ tag pairs =>
    match ← hold document fuel [] tag pairs (.settings []) with
    | some (.settings decided) => return decided.reverse
    | _ => return []
  | .reference .. => return []

/-- The decisions in a configuration file, or all its problems. Every chain of nodes
inside of each other is shorter than the square of the length of the file, because no
reference is on it twice. -/
def read (file : Bytes) : Except ConfigFault (List Setting) := do
  match ← (document file).mapError .noDocument with
  | none => return []
  | some document =>
    let size := file.length + 2
    let (settings, findings) ← settingsOf document (4 * size * size) {}
    if findings.problems.isEmpty then return settings
    throw (.problems findings.problems.reverse)

end LeastModel.Config
