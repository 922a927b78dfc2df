import LeastModel.Config.Layout
import LeastModel.Config.Scalar

/-!
# The nodes of a document

A document is a scalar, a sequence or a mapping, with further nodes inside. A node
that has an anchor can stand at other places too, by reference. The anchor of a
node is known from its start on, so a node may refer to one that it lies in;
references are therefore numbers, under which the finished nodes are kept.
-/

namespace LeastModel.Config

/-- A node with its line, counted from one. -/
inductive Node where
  /-- A scalar with its tag and text. -/
  | scalar (line : Nat) (tag : Bytes) (text : List Char)
  | sequence (line : Nat) (tag : Bytes) (items : List Node)
  | mapping (line : Nat) (tag : Bytes) (pairs : List (Node × Node))
  /-- The place of a reference in the text, the name of the anchor, and the number
  of the node. -/
  | reference (mark : Mark) (name : Bytes) (target : Nat)

namespace Node

/-- The line of a node. -/
def line : Node → Nat
  | scalar line _ _ => line
  | sequence line _ _ => line
  | mapping line _ _ => line
  | reference mark _ _ => mark.line + 1

end Node

/-- What all tags of the notation itself start with. -/
def commonTags : Bytes := "tag:yaml.org,2002:"

/-- A tag in its short form. -/
def shortTag (tag : Bytes) : Bytes :=
  if commonTags.isPrefixOf tag then "!!" ++ tag.drop commonTags.length else tag

/-- The tag that counts: the one that is written, unless that is a mere exclamation
mark, or else the given one. -/
def tagOr (written : Option Bytes) (given : Bytes) : Bytes :=
  match written with
  | some tag => if tag = "!" then given else shortTag tag
  | none => given

/-- The tag of a scalar on which none is written. Two less-than signs stand for the
merging of mappings. -/
def scalarTag (plain : Bool) (text : List Char) : Bytes :=
  if !plain then "!!str"
  else if text = ['<', '<'] then "!!merge"
  else (Scalar.ofPlain true text).tag

/-- What reading nodes has to remember. -/
structure Composition where
  tokens : Tokens
  /-- The short forms of tags and what they stand for. -/
  handles : List (Bytes × Bytes) := []
  /-- For each anchor the number of its node, the latest first. -/
  anchors : List (Bytes × Nat) := []
  /-- The number of anchors so far. -/
  count : Nat := 0
  /-- The finished nodes by number. -/
  finished : List (Nat × Node) := []

/-- A reader of nodes. -/
abbrev Compose := StateT Composition (Except DocumentFault)

namespace Compose

/-- The next token. -/
def peek : Compose Token := do
  let (token, tokens) ← Lex.peek (← get).tokens
  modify fun c => { c with tokens := tokens }
  return token

/-- Takes the next token. -/
def take : Compose Unit := do
  let ((), tokens) ← Lex.take (← get).tokens
  modify fun c => { c with tokens := tokens }

/-- The token after the next one, which is taken. -/
def next : Compose Token := do
  take
  peek

/-- What stands before a node: its place, its anchor and its tag. -/
structure Properties where
  mark : Mark
  anchor : Option Bytes := none
  tag : Option Bytes := none

/-- The tag with a handle, in something that begins at `context`. -/
def resolveTag (context mark : Mark) (handle rest : Bytes) : Compose Bytes := do
  if handle.isEmpty then return rest
  match (← get).handles.lookup handle with
  | some long => return long ++ rest
  | none => throw (.between .unknownHandle context mark)

/-- Reads the anchor and the tag before a node, in either order. -/
def properties : Compose Properties := do
  let first ← peek
  match first.kind with
  | .anchor name =>
    let second ← next
    match second.kind with
    | .tag handle rest =>
      let _ ← next
      return ⟨first.mark, some name, some (← resolveTag first.mark second.mark handle rest)⟩
    | _ => return ⟨first.mark, some name, none⟩
  | .tag handle rest =>
    let second ← next
    let anchor ←
      match second.kind with
      | .anchor name => do let _ ← next; pure (some name)
      | _ => pure none
    return ⟨first.mark, anchor, some (← resolveTag first.mark first.mark handle rest)⟩
  | _ => return ⟨first.mark, none, none⟩

/-- Fails if a malformed place has been met when looking out for a comment. It is a
fault as soon as the start or the end of a node has been read. -/
def settle : Compose Unit := do
  match (← get).tokens.cursor.noted with
  | some fault => throw (.nowhere (.encoding fault))
  | none => return

/-- Gives a number to a node that starts, if it has an anchor. -/
def begin (properties : Properties) : Compose (Option Nat) := do
  settle
  match properties.anchor with
  | none => return none
  | some name =>
    let c ← get
    set { c with anchors := (name, c.count) :: c.anchors, count := c.count + 1 }
    return some c.count

/-- Takes the token that ends a node. -/
def close : Compose Unit := do
  settle
  take

/-- Keeps a finished node under its number. -/
def finish (number : Option Nat) (node : Node) : Compose Node := do
  match number with
  | none => return node
  | some n =>
    modify fun c => { c with finished := (n, node) :: c.finished }
    return node

/-- A scalar with what stands before it. -/
def scalar (properties : Properties) (plain : Bool) (text : List Char) : Compose Node := do
  let number ← begin properties
  let tag := tagOr properties.tag (scalarTag plain text)
  finish number (.scalar (properties.mark.line + 1) tag text)

/-- The node that stands where nothing is written. -/
def nothing (mark : Mark) : Compose Node := scalar ⟨mark, none, none⟩ true []

/-- Reads a reference. -/
def reference (mark : Mark) (name : Bytes) : Compose Node := do
  settle
  match (← get).anchors.lookup name with
  | some target =>
    take
    return .reference mark name target
  | none => throw (.nowhere (.unknownAnchor name))

mutual

/-- Reads a node. `block` tells that it may be laid out by indentation, and `level`
that the hyphens of a sequence need no indentation. -/
def node : (fuel : Nat) → (block level : Bool) → Compose Node
  | 0, _, _ => do throw (.nowhere .tooDeep)
  | fuel + 1, block, level => do
    let first ← peek
    match first.kind with
    | .reference name => reference first.mark name
    | _ =>
      let properties ← properties
      let token ← peek
      let line := properties.mark.line + 1
      match token.kind with
      | .scalar plain text =>
        let node ← scalar properties plain text
        take
        return node
      | .openBracket =>
        let number ← begin properties
        take
        let items ← itemsInside fuel token.mark true []
        finish number (.sequence line (tagOr properties.tag "!!seq") items)
      | .openBrace =>
        let number ← begin properties
        take
        let pairs ← pairsInside fuel token.mark true []
        finish number (.mapping line (tagOr properties.tag "!!map") pairs)
      | kind =>
        if kind = .hyphen && level then
          let number ← begin properties
          let items ← levelItems fuel []
          finish number (.sequence line (tagOr properties.tag "!!seq") items)
        else if kind = .openSequence && block then
          let number ← begin properties
          take
          let items ← items fuel token.mark []
          finish number (.sequence line (tagOr properties.tag "!!seq") items)
        else if kind = .openMapping && block then
          let number ← begin properties
          take
          let pairs ← pairs fuel token.mark []
          finish number (.mapping line (tagOr properties.tag "!!map") pairs)
        else if properties.anchor.isSome || properties.tag.isSome then
          scalar properties true []
        else throw (.between .missingNode properties.mark token.mark)

/-- Reads a node, or nothing if the next token, after `mark`, is one of `ends`. -/
def nodeOrNothing : (fuel : Nat) → (block level : Bool) → (ends : List TokenKind) →
    (mark : Mark) → Compose Node
  | 0, _, _, _, _ => do throw (.nowhere .tooDeep)
  | fuel + 1, block, level, ends, mark => do
    if (← peek).kind ∈ ends then nothing mark else node fuel block level

/-- Reads the items of a sequence that is laid out from `context` on; `read` holds
those so far, the latest first. -/
def items : (fuel : Nat) → (context : Mark) → (read : List Node) → Compose (List Node)
  | 0, _, _ => do throw (.nowhere .tooDeep)
  | fuel + 1, context, read => do
    let token ← peek
    match token.kind with
    | .hyphen =>
      take
      let item ← nodeOrNothing fuel true false [.hyphen, .closeBlock] token.mark
      items fuel context (item :: read)
    | .closeBlock =>
      close
      return read.reverse
    | _ => throw (.between .missingHyphen context token.mark)

/-- Reads the items of a sequence whose hyphens stand as far left as the key before
them. -/
def levelItems : (fuel : Nat) → (read : List Node) → Compose (List Node)
  | 0, _ => do throw (.nowhere .tooDeep)
  | fuel + 1, read => do
    let token ← peek
    match token.kind with
    | .hyphen =>
      take
      let item ← nodeOrNothing fuel true false [.hyphen, .key, .value, .closeBlock] token.mark
      levelItems fuel (item :: read)
    | _ =>
      settle
      return read.reverse

/-- Reads the pairs of a mapping that is laid out from `context` on. -/
def pairs : (fuel : Nat) → (context : Mark) → (read : List (Node × Node)) →
    Compose (List (Node × Node))
  | 0, _, _ => do throw (.nowhere .tooDeep)
  | fuel + 1, context, read => do
    let token ← peek
    match token.kind with
    | .key =>
      take
      let key ← nodeOrNothing fuel true true [.key, .value, .closeBlock] token.mark
      let token ← peek
      let value ←
        if token.kind = .value then
          take
          nodeOrNothing fuel true true [.key, .value, .closeBlock] token.mark
        else nothing token.mark
      pairs fuel context ((key, value) :: read)
    | .closeBlock =>
      close
      return read.reverse
    | _ => throw (.between .missingKey context token.mark)

/-- Reads the items of a sequence between brackets; `first` tells that none has been
read. An item may be a single pair. -/
def itemsInside : (fuel : Nat) → (context : Mark) → (first : Bool) → (read : List Node) →
    Compose (List Node)
  | 0, _, _, _ => do throw (.nowhere .tooDeep)
  | fuel + 1, context, first, read => do
    let token ← peek
    if token.kind = .closeBracket then
      close
      return read.reverse
    let token ←
      if first then pure token
      else if token.kind = .comma then next
      else throw (.between .openBrackets context token.mark)
    match token.kind with
    | .closeBracket =>
      close
      return read.reverse
    | .key =>
      settle
      take
      let pair ← singlePair fuel
      itemsInside fuel context false (.mapping (token.mark.line + 1) "!!map" [pair] :: read)
    | _ =>
      let item ← node fuel false false
      itemsInside fuel context false (item :: read)

/-- Reads a pair that is an item of a sequence. Where the key is missing the token
in its place is passed over. -/
def singlePair : (fuel : Nat) → Compose (Node × Node)
  | 0 => do throw (.nowhere .tooDeep)
  | fuel + 1 => do
    let token ← peek
    let key ←
      if token.kind ∈ [.value, .comma, .closeBracket] then
        take
        nothing token.mark
      else node fuel false false
    let token ← peek
    let value ←
      if token.kind = .value then
        take
        nodeOrNothing fuel false false [.comma, .closeBracket] token.mark
      else nothing token.mark
    let _ ← peek
    settle
    return (key, value)

/-- Reads the pairs of a mapping between braces. -/
def pairsInside : (fuel : Nat) → (context : Mark) → (first : Bool) →
    (read : List (Node × Node)) → Compose (List (Node × Node))
  | 0, _, _, _ => do throw (.nowhere .tooDeep)
  | fuel + 1, context, first, read => do
    let token ← peek
    if token.kind = .closeBrace then
      close
      return read.reverse
    let token ←
      if first then pure token
      else if token.kind = .comma then next
      else throw (.between .openBraces context token.mark)
    match token.kind with
    | .closeBrace =>
      close
      return read.reverse
    | .key =>
      let token ← next
      let key ← nodeOrNothing fuel false false [.value, .comma, .closeBrace] token.mark
      let token ← peek
      let value ←
        if token.kind = .value then
          let token ← next
          nodeOrNothing fuel false false [.comma, .closeBrace] token.mark
        else nothing token.mark
      pairsInside fuel context false ((key, value) :: read)
    | _ =>
      let key ← node fuel false false
      let value ← nothing (← peek).mark
      pairsInside fuel context false ((key, value) :: read)

end

end Compose

end LeastModel.Config
