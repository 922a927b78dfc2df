import LeastModel.Evaluation.Step

/-!
# Groups to their fixpoints

A pass applies every rule of a group in turn, each on what the rules before it
have added. A group that does not read what it writes needs one pass; any other
is passed over until a pass adds nothing. Every pass but the last adds a tuple,
and no rule makes new values, so the number of passes is bounded by the
capacity of the database.
-/

namespace LeastModel

variable {digest : Digest}

namespace Group

/-- Applies rules in turn and counts the tuples they add to `added`. -/
def passFrom (options : Options) :
    List Rule → Database digest → (added : Nat) → Run (Database digest × Nat)
  | [], db, added => pure (db, added)
  | rule :: rules, db, added => do
    let a ← rule.apply options db
    passFrom options rules a.database (added + a.added)

/-- One pass over the rules of a group: the database after it, and how many
tuples it added. -/
def pass (options : Options) (group : Group) (db : Database digest) :
    Run (Database digest × Nat) :=
  passFrom options group.rules db 0

/-- Repeats passes until one adds nothing, with the counts so far. After a pass
that added something, the next one uses up one unit of `room`. -/
def saturate (options : Options) (group : Group) :
    (room : Nat) → GroupStats → Database digest →
      StateM Observer (GroupStats × Except Fault (Database digest))
  | room, stats, db =>
    if options.exhausted stats.passes then
      pure (stats, .error (.passLimit group.indices stats.passes))
    else do
      let stats := { stats with passes := stats.passes + 1 }
      match ← (group.pass options db).run with
      | .error fault => pure (stats, .error fault)
      | .ok (db, added) =>
        let stats := { stats with added := stats.added + added }
        modify (·.notePass group stats.passes added)
        if added = 0 ∨ !group.recursive then pure (stats, .ok db)
        else
          match room with
          | 0 => pure (stats, .ok db)
          | room + 1 => saturate options group room stats db

/-- Evaluates a group to its fixpoint and takes note of its beginning and end. -/
def evaluate (options : Options) (group : Group) (db : Database digest) :
    Run (GroupStats × Database digest) := ExceptT.mk do
  modify (·.note (.groupBegin group))
  let (stats, outcome) ← group.saturate options db.capacity (.initial group) db
  modify (·.note (.groupComplete group stats.passes stats.added))
  return outcome.map (stats, ·)

end Group

end LeastModel
