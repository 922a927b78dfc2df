import LeastModel.Proofs.Database
import LeastModel.Proofs.Representation

/-!
# Databases under requests

A database is asked to declare relations, to take in tuples and to show what it
has. Of the requests that succeed, a declaration puts a relation without tuples
under a new name, and an addition exchanges a relation for one with more tuples at
its end (`Lengthens`); everything else changes nothing. A request that fails, at
whichever of its checks, leaves the database as it was (`answer_of_error`). So
whatever is asked, and in whatever order, a database goes on from where it was
(`Extends`).

## Main statement

`Database.ofRequests_orderly`: what a database looks like after any requests, and
what one more request or many more can do to it.
-/

namespace LeastModel.Database

variable {digest : Digest}

/-! ## Requests -/

/-- What a database can be asked for. A relation that is merged has been built by
the operations on relations. -/
inductive Request (digest : Digest) where
  | declare (scheme : Atom)
  | addFact (fact : Atom)
  | addTuple (name : Bytes) (t : Tuple)
  | merge (name : Bytes) (r : Relation digest) (built : r.Built)
  | query (atom : Atom)
  | relation (name : Bytes)

/-- What is reported of a request that succeeds. -/
inductive Reply (digest : Digest) where
  | declared
  | added (new : Bool)
  | merged (count : Nat)
  | answered (r : Relation digest)
  | copied (r : Option (Relation digest))

/-- The number of tuples that are reported as new. -/
def Reply.growth : Reply digest → Nat
  | .added new => new.toNat
  | .merged count => count
  | _ => 0

/-- Answers a request; beside the reply, or the failure, is the database as the
request leaves it. -/
def answer (db : Database digest) :
    Request digest → Except Fault (Reply digest) × Database digest
  | .declare scheme =>
    let (outcome, db) := db.declare scheme
    (outcome.map fun _ => .declared, db)
  | .addFact fact =>
    let (outcome, db) := db.addFact fact
    (outcome.map .added, db)
  | .addTuple name t =>
    let (outcome, db) := db.addTuple name t
    (outcome.map .added, db)
  | .merge name r _ =>
    let (outcome, db) := db.merge name r
    (outcome.map .merged, db)
  | .query atom => ((db.query atom).map .answered, db)
  | .relation name => (.ok (.copied ((db.find? name).map (·.copy))), db)

/-- The database after a request. -/
def after (db : Database digest) (request : Request digest) : Database digest :=
  (db.answer request).2

/-- The database after requests, starting from one without relations. -/
def ofRequests (requests : List (Request digest)) : Database digest :=
  requests.foldl after empty

/-- The scheme that a request declares, if it does. -/
def schemeOf (db : Database digest) (request : Request digest) : List Atom :=
  match request, (db.answer request).1 with
  | .declare scheme, .ok _ => [scheme]
  | _, _ => []

/-- The schemes that requests declare, in order. -/
def schemesFrom (db : Database digest) : List (Request digest) → List Atom
  | [] => []
  | request :: requests => db.schemeOf request ++ schemesFrom (db.after request) requests

/-! ## Databases that go on -/

/-- The relations are there with the same attributes, and their tuples are the
first ones of what is there now. -/
def Extends (db db' : Database digest) : Prop :=
  ∀ name r, db.find? name = some r →
    ∃ r', db'.find? name = some r' ∧ r'.schema = r.schema ∧ r.tuples <+: r'.tuples

theorem Extends.refl (db : Database digest) : db.Extends db :=
  fun _ r hr => ⟨r, hr, rfl, List.prefix_rfl⟩

theorem Extends.trans {db db' db'' : Database digest} (h : db.Extends db') (h' : db'.Extends db'') :
    db.Extends db'' := by
  intro name r hr
  obtain ⟨r', hr', hschema, hprefix⟩ := h name r hr
  obtain ⟨r'', hr'', hschema', hprefix'⟩ := h' name r' hr'
  exact ⟨r'', hr'', hschema'.trans hschema, hprefix.trans hprefix'⟩

/-- The table and the names belong together, and what is stored has been built by
operations. -/
structure Sound (db : Database digest) : Prop where
  wellFormed : db.WellFormed
  built : ∀ {name : Bytes} {r : Relation digest}, db.find? name = some r → r.Built

theorem sound_empty : (empty : Database digest).Sound where
  wellFormed := wellFormed_empty
  built := fun h => by simp [find?, empty] at h

/-! ## Additions -/

/-- `db'` is `db` with the relation under a name exchanged for one that has `n`
tuples more, at its end. -/
structure Lengthened (db : Database digest) (n : Nat) (name : Bytes) (r s : Relation digest)
    (db' : Database digest) : Prop where
  found : db.find? name = some r
  built : s.Built
  named : s.name = name
  schema : s.schema = r.schema
  tuples : r.tuples <+: s.tuples
  size : s.size = r.size + n
  eq : db' = db.put name s

def Lengthens (db : Database digest) (n : Nat) (db' : Database digest) : Prop :=
  ∃ name r s, db.Lengthened n name r s db'

namespace Lengthens

variable {db db' : Database digest} {n : Nat}

theorem of_insertAll {name : Bytes} {r : Relation digest} (hdb : db.Sound)
    (hr : db.find? name = some r) {ts : List Tuple} (hbuilt : (r.insertAll ts).Built)
    (hsize : (r.insertAll ts).size = r.size + n) (h : db' = db.put name (r.insertAll ts)) :
    db.Lengthens n db' := by
  have hname : r.name = name := hdb.wellFormed.named hr
  refine ⟨name, r, r.insertAll ts, hr, hbuilt, hname, rfl, ?_, hsize, h⟩
  rw [Relation.tuples_insertAll (hdb.wellFormed.found hr)]
  exact List.prefix_append _ _

theorem of_addTuple (hdb : db.Sound) {name : Bytes} {t : Tuple} {new : Bool}
    (h : db.addTuple name t = (.ok new, db')) : db.Lengthens new.toNat db' := by
  obtain ⟨r, hr, hlength, rfl, rfl⟩ := addTuple_eq_ok_iff.mp h
  have hadded : r.add t = .ok (r.insertAll [t], !r.contains t) :=
    Relation.add_eq_ok_iff.mpr ⟨hlength, rfl, rfl⟩
  have hsize := Relation.size_of_add (hdb.wellFormed.found hr) hadded
  exact of_insertAll hdb hr (.add (hdb.built hr) hadded) hsize rfl

theorem of_addFact (hdb : db.Sound) {fact : Atom} {new : Bool}
    (h : db.addFact fact = (.ok new, db')) : db.Lengthens new.toNat db' :=
  of_addTuple hdb (addFact_eq_ok_iff.mp h).2

theorem of_merge (hdb : db.Sound) {name : Bytes} {r : Relation digest} (hr : r.Built)
    (h : db.merge name r = (.ok n, db')) : db.Lengthens n db' := by
  obtain ⟨current, hcurrent, harity, rfl, rfl⟩ := merge_eq_ok_iff.mp h
  have hbuilt := Relation.Built.union (hdb.built hcurrent) hr
    (Relation.union_eq_ok_iff.mpr ⟨harity, rfl⟩)
  have hle := Relation.size_le_insertAll (hdb.wellFormed.found hcurrent) r.tuples
  exact of_insertAll hdb hcurrent hbuilt (by omega) rfl

theorem sound (h : db.Lengthens n db') (hdb : db.Sound) : db'.Sound := by
  obtain ⟨name, r, s, h⟩ := h
  obtain rfl := h.eq
  constructor
  case wellFormed => exact hdb.wellFormed.put h.found h.built.wellFormed h.named
  case built => exact forall_find?_put hdb.built h.built

theorem signature_eq (h : db.Lengthens n db') (hdb : db.Sound) :
    db'.signature = db.signature := by
  obtain ⟨name, r, s, h⟩ := h
  obtain rfl := h.eq
  exact hdb.wellFormed.signature_put h.found h.named h.schema

theorem to_extends (h : db.Lengthens n db') : db.Extends db' := by
  obtain ⟨name, r, s, h⟩ := h
  obtain rfl := h.eq
  intro other old hold
  by_cases hother : other = name
  · subst hother
    rw [h.found, Option.some_inj] at hold
    subst hold
    exact ⟨s, find?_put_self db other s, h.schema, h.tuples⟩
  · exact ⟨old, by rw [find?_put_of_ne db hother, hold], rfl, List.prefix_rfl⟩

theorem tupleCount_eq (h : db.Lengthens n db') (hdb : db.Sound) :
    db'.tupleCount = db.tupleCount + n := by
  obtain ⟨name, r, s, h⟩ := h
  obtain rfl := h.eq
  have hcount := tupleCount_put hdb.wellFormed h.found h.built.wellFormed h.named
  have hsize := h.size
  omega

end Lengthens

/-! ## Declarations -/

/-- The name and the attributes that a scheme declares. -/
def entryOf (scheme : Atom) : Bytes × List Bytes := (scheme.name, scheme.terms.map (·.value))

section Declare

variable {db db' : Database digest} {scheme : Atom}

theorem relations_of_declare (hdb : db.WellFormed) (h : db.declare scheme = (.ok (), db')) :
    db'.relations = db.relations ++ [relationOf scheme] := by
  obtain ⟨hnone, -, rfl⟩ := declare_eq_ok_iff.mp h
  exact hdb.relations_putNew (r := relationOf scheme) hnone

theorem sound_of_declare (hdb : db.Sound) (h : db.declare scheme = (.ok (), db')) :
    db'.Sound := by
  have hwell := (declare_spec hdb.wellFormed h).1
  obtain ⟨-, -, rfl⟩ := declare_eq_ok_iff.mp h
  constructor
  case wellFormed => exact hwell
  case built => exact forall_find?_put hdb.built (.empty _ _)

theorem signature_of_declare (hdb : db.Sound) (h : db.declare scheme = (.ok (), db')) :
    db'.signature = db.signature ++ [entryOf scheme] := by
  rw [signature, relations_of_declare hdb.wellFormed h, List.map_append]
  rfl

theorem extends_of_declare (h : db.declare scheme = (.ok (), db')) : db.Extends db' := by
  obtain ⟨hnone, -, rfl⟩ := declare_eq_ok_iff.mp h
  intro name r hr
  exact ⟨r, find?_putNew_of_some (r := relationOf scheme) hnone hr, rfl, List.prefix_rfl⟩

theorem tupleCount_of_declare (hdb : db.Sound) (h : db.declare scheme = (.ok (), db')) :
    db'.tupleCount = db.tupleCount := by
  have hwell := (declare_spec hdb.wellFormed h).1
  rw [hwell.tupleCount_eq, hdb.wellFormed.tupleCount_eq, relations_of_declare hdb.wellFormed h,
    List.map_append, Number.total_append]
  rfl

end Declare

/-! ## One request -/

section Outcome

variable {α β : Type} {x : Except Fault α × Database digest} {db : Database digest}

theorem map_eq_ok_iff {f : α → β} {b : β} :
    (x.1.map f, x.2) = (.ok b, db) ↔ ∃ a, x = (.ok a, db) ∧ f a = b := by
  match x with
  | (.ok a, db') => simp [Except.map, and_comm]
  | (.error fault, db') => simp [Except.map]

theorem map_eq_error_iff {f : α → β} {fault : Fault} :
    (x.1.map f, x.2) = (.error fault, db) ↔ x = (.error fault, db) := by
  match x with
  | (.ok a, db') => simp [Except.map]
  | (.error fault, db') => simp [Except.map]

end Outcome

/-- What a request that succeeds can do: declare a relation, add the tuples that
it reports, or nothing. -/
theorem answer_cases {db db' : Database digest} (hdb : db.Sound) {request : Request digest}
    {reply : Reply digest} (h : db.answer request = (.ok reply, db')) :
    (∃ scheme, request = .declare scheme ∧ reply = .declared ∧
        db.declare scheme = (.ok (), db')) ∨
      db.schemeOf request = [] ∧ (db.Lengthens reply.growth db' ∨ reply.growth = 0 ∧ db' = db) := by
  cases request with
  | declare scheme =>
      obtain ⟨⟨⟩, hdeclared, rfl⟩ := map_eq_ok_iff.mp h
      exact .inl ⟨scheme, rfl, rfl, hdeclared⟩
  | addFact fact =>
      obtain ⟨new, hadded, rfl⟩ := map_eq_ok_iff.mp h
      exact .inr ⟨rfl, .inl (.of_addFact hdb hadded)⟩
  | addTuple name t =>
      obtain ⟨new, hadded, rfl⟩ := map_eq_ok_iff.mp h
      exact .inr ⟨rfl, .inl (.of_addTuple hdb hadded)⟩
  | merge name r built =>
      obtain ⟨count, hmerged, rfl⟩ := map_eq_ok_iff.mp h
      exact .inr ⟨rfl, .inl (.of_merge hdb built hmerged)⟩
  | query atom =>
      obtain ⟨r, hr, rfl⟩ := (map_eq_ok_iff (x := (db.query atom, db))).mp h
      exact .inr ⟨rfl, .inr ⟨rfl, (congrArg Prod.snd hr).symm⟩⟩
  | relation name =>
      obtain ⟨hreply, hsame⟩ := Prod.mk.inj h
      obtain rfl := Except.ok.inj hreply
      exact .inr ⟨rfl, .inr ⟨rfl, hsame.symm⟩⟩

/-! ## Requests that fail -/

section Error

variable {db db' : Database digest} {fault : Fault}

theorem declare_of_error {scheme : Atom} (h : db.declare scheme = (.error fault, db')) :
    db' = db := by
  rw [declare] at h
  split at h
  · exact (congrArg Prod.snd h).symm
  · split at h
    · exact (congrArg Prod.snd h).symm
    · cases congrArg Prod.fst h

/-- The relation is put back as it was. -/
theorem addTuple_of_error {name : Bytes} {t : Tuple}
    (h : db.addTuple name t = (.error fault, db')) : db' = db := by
  cases hfound : db.find? name with
  | none =>
      rw [addTuple, relation_eq_error hfound] at h
      exact (congrArg Prod.snd h).symm
  | some r =>
      rw [addTuple_of_find? hfound] at h
      obtain ⟨houtcome, rfl⟩ := Prod.mk.inj h
      have hsame : (r.addTuple t).2 = r := Relation.addTuple_of_error (Prod.ext houtcome rfl)
      rw [hsame, put_self hfound]

theorem addFact_of_error {fact : Atom} (h : db.addFact fact = (.error fault, db')) :
    db' = db := by
  rw [addFact] at h
  split at h
  · exact addTuple_of_error h
  · exact (congrArg Prod.snd h).symm

theorem merge_of_error {name : Bytes} {r : Relation digest}
    (h : db.merge name r = (.error fault, db')) : db' = db := by
  cases hfound : db.find? name with
  | none =>
      rw [merge, relation_eq_error hfound] at h
      exact (congrArg Prod.snd h).symm
  | some current =>
      cases hunion : current.union r with
      | error fault' =>
          rw [merge_of_union_error hfound hunion] at h
          exact (congrArg Prod.snd h).symm
      | ok merged =>
          rw [merge_of_union_ok hfound hunion] at h
          cases congrArg Prod.fst h

/-- Whatever the request, its failure leaves the database as it was. -/
theorem answer_of_error {request : Request digest}
    (h : db.answer request = (.error fault, db')) : db' = db := by
  cases request with
  | declare scheme => exact declare_of_error (map_eq_error_iff.mp h)
  | addFact fact => exact addFact_of_error (map_eq_error_iff.mp h)
  | addTuple name t => exact addTuple_of_error (map_eq_error_iff.mp h)
  | merge name r built => exact merge_of_error (map_eq_error_iff.mp h)
  | query atom => exact (congrArg Prod.snd h).symm
  | relation name => cases congrArg Prod.fst h

end Error

theorem after_of_answer {db db' : Database digest} {request : Request digest}
    {outcome : Except Fault (Reply digest)} (h : db.answer request = (outcome, db')) :
    db.after request = db' := by
  rw [after, h]

theorem schemeOf_of_error {db db' : Database digest} {request : Request digest} {fault : Fault}
    (h : db.answer request = (.error fault, db')) : db.schemeOf request = [] := by
  cases request <;> simp [schemeOf, h]

/-- What any request can do, whether or not it succeeds. -/
theorem after_cases {db : Database digest} (hdb : db.Sound) (request : Request digest) :
    (∃ scheme, db.schemeOf request = [scheme] ∧
        db.declare scheme = (.ok (), db.after request)) ∨
      db.schemeOf request = [] ∧
        ((∃ n, db.Lengthens n (db.after request)) ∨ db.after request = db) := by
  match h : db.answer request with
  | (.error fault, db') =>
      rw [after_of_answer h]
      exact .inr ⟨schemeOf_of_error h, .inr (answer_of_error h)⟩
  | (.ok reply, db') =>
      rw [after_of_answer h]
      obtain ⟨scheme, rfl, -, hdeclare⟩ | ⟨hnone, hlonger | ⟨-, hsame⟩⟩ := answer_cases hdb h
      · exact .inl ⟨scheme, by simp only [schemeOf, h], hdeclare⟩
      · exact .inr ⟨hnone, .inl ⟨_, hlonger⟩⟩
      · exact .inr ⟨hnone, .inr hsame⟩

theorem sound_after {db : Database digest} (hdb : db.Sound) (request : Request digest) :
    (db.after request).Sound := by
  obtain ⟨scheme, -, hdeclare⟩ | ⟨-, ⟨n, hlonger⟩ | hsame⟩ := after_cases hdb request
  · exact sound_of_declare hdb hdeclare
  · exact hlonger.sound hdb
  · rwa [hsame]

theorem extends_after {db : Database digest} (hdb : db.Sound) (request : Request digest) :
    db.Extends (db.after request) := by
  obtain ⟨scheme, -, hdeclare⟩ | ⟨-, ⟨n, hlonger⟩ | hsame⟩ := after_cases hdb request
  · exact extends_of_declare hdeclare
  · exact hlonger.to_extends
  · rw [hsame]
    exact Extends.refl db

theorem signature_after {db : Database digest} (hdb : db.Sound) (request : Request digest) :
    (db.after request).signature = db.signature ++ (db.schemeOf request).map entryOf := by
  obtain ⟨scheme, hscheme, hdeclare⟩ | ⟨hnone, ⟨n, hlonger⟩ | hsame⟩ := after_cases hdb request
  · rw [hscheme, signature_of_declare hdb hdeclare, List.map_singleton]
  · rw [hnone, hlonger.signature_eq hdb, List.map_nil, List.append_nil]
  · rw [hnone, hsame, List.map_nil, List.append_nil]

theorem tupleCount_of_answer {db db' : Database digest} (hdb : db.Sound)
    {request : Request digest} {reply : Reply digest}
    (h : db.answer request = (.ok reply, db')) :
    db'.tupleCount = db.tupleCount + reply.growth := by
  obtain ⟨scheme, -, rfl, hdeclare⟩ | ⟨-, hlonger | ⟨hnone, rfl⟩⟩ := answer_cases hdb h
  · exact tupleCount_of_declare hdb hdeclare
  · exact hlonger.tupleCount_eq hdb
  · rw [hnone, Nat.add_zero]

/-! ## Many requests -/

theorem sound_foldl {db : Database digest} (hdb : db.Sound) (requests : List (Request digest)) :
    (requests.foldl after db).Sound := by
  induction requests generalizing db with
  | nil => exact hdb
  | cons request requests ih => exact ih (sound_after hdb request)

theorem extends_foldl {db : Database digest} (hdb : db.Sound) (requests : List (Request digest)) :
    db.Extends (requests.foldl after db) := by
  induction requests generalizing db with
  | nil => exact Extends.refl db
  | cons request requests ih =>
      exact (extends_after hdb request).trans (ih (sound_after hdb request))

theorem signature_foldl {db : Database digest} (hdb : db.Sound)
    (requests : List (Request digest)) :
    (requests.foldl after db).signature =
      db.signature ++ (db.schemesFrom requests).map entryOf := by
  induction requests generalizing db with
  | nil => simp [schemesFrom]
  | cons request requests ih =>
      rw [List.foldl_cons, ih (sound_after hdb request), signature_after hdb, schemesFrom,
        List.map_append, List.append_assoc]

theorem sound_ofRequests (requests : List (Request digest)) : (ofRequests requests).Sound :=
  sound_foldl sound_empty requests

/-- The relations are those that have been declared. -/
theorem signature_ofRequests (requests : List (Request digest)) :
    (ofRequests requests).signature = (empty.schemesFrom requests).map entryOf :=
  signature_foldl sound_empty requests

/-- What a database looks like after requests, and what further requests do to it. -/
structure Orderly (requests : List (Request digest)) : Prop where
  /-- The names are those of the schemes that have been declared, in order. -/
  names_eq : (ofRequests requests).names = (empty.schemesFrom requests).map (·.name)
  names_nodup : (ofRequests requests).names.Nodup
  /-- The table has relations under these names and no others. -/
  has_iff : ∀ name, (ofRequests requests).has name = true ↔ name ∈ (ofRequests requests).names
  /-- Under a name is a relation of that name with the attributes of its scheme. -/
  stored : ∀ name r, (ofRequests requests).find? name = some r → r.name = name ∧
    ∃ scheme ∈ empty.schemesFrom requests, scheme.name = name ∧
      r.schema = scheme.terms.map (·.value) ∧ r.tuples.Nodup ∧
      ∀ t ∈ r.tuples, t.length = scheme.arity
  /-- What is stored may be merged again. -/
  built : ∀ name r, (ofRequests requests).find? name = some r → r.Built
  /-- Whatever is asked for later, tuples come after those that are there. -/
  goesOn : ∀ more, (ofRequests requests).Extends (ofRequests (requests ++ more))
  /-- A request that succeeds adds as many tuples as it reports. -/
  tupleCount_eq : ∀ request reply db', (ofRequests requests).answer request = (.ok reply, db') →
    ofRequests (requests ++ [request]) = db' ∧
      db'.tupleCount = (ofRequests requests).tupleCount + reply.growth
  /-- A request that fails leaves the table and the names as they were. -/
  unchanged : ∀ request fault db', (ofRequests requests).answer request = (.error fault, db') →
    ofRequests (requests ++ [request]) = db' ∧ db' = ofRequests requests

theorem ofRequests_append (requests more : List (Request digest)) :
    ofRequests (requests ++ more) = more.foldl after (ofRequests requests) :=
  List.foldl_append

theorem ofRequests_concat (requests : List (Request digest)) (request : Request digest) :
    ofRequests (requests ++ [request]) = (ofRequests requests).after request :=
  ofRequests_append requests [request]

theorem ofRequests_orderly (requests : List (Request digest)) : Orderly requests := by
  have hsound : (ofRequests requests).Sound := sound_ofRequests requests
  have hsignature : (ofRequests requests).signature =
      (empty.schemesFrom requests).map entryOf := signature_ofRequests requests
  constructor
  case names_eq =>
    have hnames := congrArg (List.map Prod.fst) hsignature
    rw [signature, List.map_map, List.map_map] at hnames
    rw [← hsound.wellFormed.map_name_relations]
    exact hnames
  case names_nodup => exact hsound.wellFormed.names
  case has_iff => exact fun name => (hsound.wellFormed.declared name).symm
  case stored =>
    intro name r hr
    have hwell := hsound.wellFormed.found hr
    have hentry := hsound.wellFormed.mem_signature_iff.mpr ⟨r, hr, rfl⟩
    rw [hsignature] at hentry
    obtain ⟨scheme, hscheme, heq⟩ := List.mem_map.mp hentry
    obtain ⟨hname, hschema⟩ := Prod.mk.inj heq
    refine ⟨hsound.wellFormed.named hr, scheme, hscheme, hname, hschema.symm, hwell.set.nodup, ?_⟩
    intro t ht
    rw [hwell.arity t ht, Relation.arity, ← hschema, List.length_map, Atom.arity]
  case built => exact fun name r hr => hsound.built hr
  case goesOn =>
    intro more
    rw [ofRequests_append]
    exact extends_foldl hsound more
  case tupleCount_eq =>
    intro request reply db' h
    rw [ofRequests_concat]
    exact ⟨after_of_answer h, tupleCount_of_answer hsound h⟩
  case unchanged =>
    intro request fault db' h
    rw [ofRequests_concat]
    exact ⟨after_of_answer h, answer_of_error h⟩

end LeastModel.Database
