import LeastModel.Database.Basic

/-!
# Checking rules before evaluation

A rule is fit for a database when its head and body relations are declared with
matching numbers of attributes, its head has no constants, and every identifier
of the head occurs in the body. Rules that pass never fail during evaluation.
-/

namespace LeastModel

variable {digest : Digest}

/-- Refuses an atom whose relation is not declared, or declared with another
number of attributes, which `fault` reports. -/
def Database.checkAtom (db : Database digest) (fault : Bytes → Nat → Nat → Fault) (atom : Atom) :
    Except Fault Unit := do
  let r ← db.relation atom.name
  if atom.arity = r.arity then return () else throw (fault atom.name atom.arity r.arity)

/-- Refuses the first constant among the terms of a rule head. -/
def Rule.checkHead : List Term → Except Fault Unit
  | [] => .ok ()
  | t :: ts => if t.isConstant then .error (.constantInHead t.value) else checkHead ts

/-- Checks the atoms of a body from left to right. -/
def Database.checkBody (db : Database digest) : List Atom → Except Fault Unit
  | [] => .ok ()
  | atom :: atoms => do
    db.checkAtom .bodyArity atom
    db.checkBody atoms

/-- Checks a rule: head relation, head terms, body atoms, head variables. -/
def Database.checkRule (db : Database digest) (rule : Rule) : Except Fault Unit := do
  db.checkAtom .headArity rule.head
  Rule.checkHead rule.head.terms
  db.checkBody rule.body
  match rule.unboundVariables with
  | [] => return ()
  | names => throw (.unboundVariables names)

/-- Checks rules in turn. -/
def Database.validate (db : Database digest) : List Rule → Except Fault Unit
  | [] => .ok ()
  | rule :: rules => do
    (db.checkRule rule).mapError (.inRule rule)
    db.validate rules

end LeastModel
