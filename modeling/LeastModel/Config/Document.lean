import LeastModel.Config.Node

/-!
# Documents

Only the first document of a file counts. A file without one is empty.
-/

namespace LeastModel.Config

/-- A document: its outermost node, and the nodes that have an anchor. -/
structure Document where
  root : Node
  anchored : List (Nat × Node)

namespace Compose

/-- The short forms of tags that need no directive. -/
def commonHandles : List (Bytes × Bytes) := [("!", "!"), ("!!", commonTags)]

/-- Takes directives, at most `fuel` of them. `version` tells that one has given
the version. -/
def directivesFrom : (fuel : Nat) → (version : Bool) → Compose Unit
  | 0, _ => return
  | fuel + 1, version => do
    let token ← peek
    match token.kind with
    | .directive (.version major minor) =>
      if version then throw (.between .repeatedVersion {} token.mark)
      if major ≠ 1 || minor ≠ 1 then throw (.between .wrongVersion {} token.mark)
      take
      directivesFrom fuel true
    | .directive (.handle short long) =>
      let c ← get
      if (c.handles.lookup short).isSome then throw (.between .repeatedHandle {} token.mark)
      set { c with handles := c.handles ++ [(short, long)] }
      take
      directivesFrom fuel version
    | _ => return

/-- Takes the directives before a document. -/
def directives (fuel : Nat) : Compose Unit := do
  directivesFrom fuel false
  modify fun c => { c with handles := c.handles ++ commonHandles }

/-- Reads the first document, if there is one, and what ends it. -/
def document (fuel : Nat) : Compose (Option Node) := do
  let _ ← peek
  settle
  let first ← next
  match first.kind with
  | .stop =>
    settle
    return none
  | .directive _ | .documentStart =>
    directives fuel
    let token ← peek
    if token.kind ≠ .documentStart then
      throw (.between .missingDocumentStart {} token.mark)
    settle
    let token ← next
    let root ←
      match token.kind with
      | .directive _ | .documentStart | .documentEnd | .stop => nothing token.mark
      | _ => node fuel true false
    let _ ← peek
    settle
    return some root
  | _ =>
    directives fuel
    settle
    let root ← node fuel true false
    let _ ← peek
    settle
    return some root

end Compose

/-- The first document of a file; none if the file is empty. -/
def document (file : Bytes) : Except DocumentFault (Option Document) := do
  let cursor := Cursor.start file
  let (root, c) ← Compose.document (4 * cursor.left + 16) { tokens := { cursor := cursor } }
  return root.map fun root => ⟨root, c.finished⟩

end LeastModel.Config
