import LeastModel.Config.Reading
import LeastModel.Proofs.Relation

/-!
# What the keys of a configuration file decide

A file that is read has noted no problem, and problems are never forgotten. So it
is enough to know what a reader finds as long as none is noted (`Clean`). In a
mapping into which nothing is merged every key is then the name of a setting, each
is named once, and its value, unless it is nothing, fits (`Fits`); the settings of
the file are the values under their names (`says_of_read`).
-/

namespace LeastModel

/-- What is said about each setting, if anything. -/
structure Keys where
  format : Option Bytes := none
  verbose : Option Bool := none
  store : Option Bytes := none
  graph : Option Bool := none
  maxPasses : Option Int := none
  validateRules : Option Bool := none
  traceJoins : Option Bool := none
  deriving DecidableEq

/-- What the last decision about each setting says. -/
def Keys.ofDecisions (decided : List Setting) : Keys where
  format := (decided.filterMap fun | .format name => some name | _ => none).getLast?
  verbose := (decided.filterMap fun | .verbose b => some b | _ => none).getLast?
  store := (decided.filterMap fun | .store directory => some directory | _ => none).getLast?
  graph := (decided.filterMap fun | .graph b => some b | _ => none).getLast?
  maxPasses := (decided.filterMap fun | .maxPasses n => some n | _ => none).getLast?
  validateRules := (decided.filterMap fun | .validateRules b => some b | _ => none).getLast?
  traceJoins := (decided.filterMap fun | .traceJoins b => some b | _ => none).getLast?

namespace Config

variable {α β : Type}

/-! ## Finding without problems -/

/-- What `x` finds satisfies `P` if no problem has been noted in the end. -/
structure Clean (x : Find α) (P : α → Prop) : Prop where
  of_run : ∀ {f a f'}, x.run f = .ok (a, f') → f'.problems = [] → f.problems = [] ∧ P a

/-- Counting a node notes nothing and hides nothing. -/
theorem visit_eq_ok {followed : List Mark} {f f' : Findings} {a : Unit}
    (h : (Find.visit followed).run f = .ok (a, f')) :
    f'.problems = f.problems ∧ f'.hidden = f.hidden := by
  rw [Find.visit, StateT.run_bind, StateT.run_get, pure_bind] at h
  dsimp only at h
  generalize (if followed.isEmpty then f.borrowed else f.borrowed + 1) = borrowed at h
  split at h
  · cases h
  · cases h
    exact ⟨rfl, rfl⟩

/-- Coming to a node notes nothing and hides nothing, and leads to what the node
stands for. -/
theorem reach_eq_ok {document : Document} {followed : List Mark} {node : Node} {f f' : Findings}
    {found : List Mark × Node}
    (h : (Find.reach document followed node).run f = .ok (found, f')) :
    f'.problems = f.problems ∧ f'.hidden = f.hidden ∧
      found.2 = (document.resolve node).getD node := by
  unfold Find.reach at h
  rw [StateT.run_bind] at h
  obtain ⟨⟨_, mid⟩, hvisit, h⟩ := bind_eq_ok_iff.mp h
  obtain ⟨hproblems, hhidden⟩ := visit_eq_ok hvisit
  cases node with
  | reference mark name target =>
      dsimp only at h
      split at h
      · cases h
      · rw [StateT.run_bind] at h
        obtain ⟨⟨_, later⟩, hagain, h⟩ := bind_eq_ok_iff.mp h
        obtain ⟨hproblems', hhidden'⟩ := visit_eq_ok hagain
        cases h
        exact ⟨hproblems'.trans hproblems, hhidden'.trans hhidden, rfl⟩
  | scalar line tag text => cases h; exact ⟨hproblems, hhidden, rfl⟩
  | sequence line tag items => cases h; exact ⟨hproblems, hhidden, rfl⟩
  | mapping line tag pairs => cases h; exact ⟨hproblems, hhidden, rfl⟩

namespace Clean

theorem pure {a : α} {P : α → Prop} (h : P a) : Clean (pure a : Find α) P := by
  constructor
  intro f a' f' hrun hclean
  cases hrun
  exact ⟨hclean, h⟩

theorem imp {x : Find α} {P Q : α → Prop} (h : Clean x P) (hpq : ∀ a, P a → Q a) : Clean x Q :=
  ⟨fun hrun hclean => (h.of_run hrun hclean).imp_right (hpq _)⟩

/-- That the first reader has noted nothing is known only after the second, so what
it finds is a premise of what the second finds. -/
theorem bind {x : Find α} {g : α → Find β} {Q : α → Prop} {P : β → Prop} (hx : Clean x Q)
    (hg : ∀ a, Clean (g a) fun b => Q a → P b) : Clean (x >>= g) P := by
  constructor
  intro f b f' hrun hclean
  obtain ⟨⟨a, mid⟩, hfirst, hrest⟩ := bind_eq_ok_iff.mp hrun
  obtain ⟨hmid, hsecond⟩ := (hg a).of_run hrest hclean
  obtain ⟨hbefore, hq⟩ := hx.of_run hfirst hmid
  exact ⟨hbefore, hsecond hq⟩

theorem throw {e : ConfigFault} {P : α → Prop} : Clean (throw e : Find α) P := by
  constructor
  intro f a f' hrun
  cases hrun

theorem note {p : Problem} {ps : List Problem} :
    Clean (Find.note (p :: ps)) fun _ => False := by
  constructor
  intro f a f' hrun hclean
  cases hrun
  simp at hclean

theorem hide (hidden : Option (List Scalar)) : Clean (Find.hide hidden) fun _ => True := by
  constructor
  intro f a f' hrun hclean
  cases hrun
  exact ⟨hclean, trivial⟩

theorem visit (followed : List Mark) : Clean (Find.visit followed) fun _ => True := by
  refine ⟨fun hrun hclean => ?_⟩
  rw [← (visit_eq_ok hrun).1]
  exact ⟨hclean, trivial⟩

theorem reach (document : Document) (followed : List Mark) (node : Node) :
    Clean (Find.reach document followed node) fun found =>
      found.2 = (document.resolve node).getD node := by
  refine ⟨fun hrun hclean => ?_⟩
  obtain ⟨hproblems, -, hfound⟩ := reach_eq_ok hrun
  exact ⟨hproblems ▸ hclean, hfound⟩

theorem meaning (tag : Bytes) (text : List Char) :
    Clean (Find.meaning tag text) fun found => Config.meaning tag text = .ok found := by
  rw [Find.meaning]
  split
  · rename_i found h
    exact .pure h
  · exact .throw

theorem refuseMapping (line : Nat) (tag wanted : Bytes) (pairs : List (Node × Node)) :
    Clean (Find.refuseMapping line tag wanted pairs) fun _ => False := by
  rw [Find.refuseMapping]
  match repetitions pairs with
  | [] => exact .note
  | p :: ps => exact .note

end Clean

/-! ## The values of nodes -/

namespace Document

/-- The scalar that a node stands for, and its text. -/
def scalar? (document : Document) (node : Node) : Option (Scalar × Bytes) :=
  match document.resolve node with
  | some (.scalar _ tag text) => (meaning tag text).toOption
  | _ => none

/-- What a node is where a slot wants a value; none if it is nothing. -/
def value? (document : Document) (slot : Slot α) (node : Node) : Option α :=
  (document.scalar? node).bind fun (meaning, text) =>
    if meaning = .nothing then none else ofScalar? slot meaning text

/-- Whether a node stands for nothing, or leads nowhere. -/
def isNothing (document : Document) (node : Node) : Bool :=
  match document.resolve node with
  | some (.scalar _ tag text) => (meaning tag text).toOption.map (·.1) = some .nothing
  | some (.sequence ..) | some (.mapping ..) => false
  | _ => true

end Document

/-- A node that is reached is what another stands for, or leads nowhere. -/
theorem resolve_of_reached {document : Document} {node reached : Node}
    (h : reached = (document.resolve node).getD node) :
    document.resolve node = some reached ∨
      document.resolve node = none ∧ ∃ mark name target, reached = .reference mark name target := by
  cases node with
  | reference mark name target =>
      cases hresolve : document.resolve (.reference mark name target) with
      | none => exact .inr ⟨rfl, mark, name, target, by rw [h, hresolve]; rfl⟩
      | some found => exact .inl (by rw [h, hresolve]; rfl)
  | _ => exact .inl (congrArg some h.symm)

/-- Without problems a node becomes its value, and only nothing has none. -/
theorem clean_fill (document : Document) (followed : List Mark) (slot : Slot α) (node : Node) :
    Clean (fill document followed slot node) fun found =>
      found = document.value? slot node ∧ (found = none → document.isNothing node) := by
  refine .bind (.reach document followed node) fun ⟨_, reached⟩ => ?_
  dsimp only
  cases reached with
  | scalar line tag text =>
      refine .bind (.meaning tag text) fun ⟨meant, bytes⟩ => ?_
      have hscalar (hmeaning : meaning tag text = .ok (meant, bytes))
          (hreached : .scalar line tag text = (document.resolve node).getD node) :
          document.resolve node = some (.scalar line tag text) ∧
            document.scalar? node = some (meant, bytes) := by
        obtain hresolve | ⟨-, mark, name, target, h⟩ := resolve_of_reached hreached
        · exact ⟨hresolve, by simp [Document.scalar?, hresolve, hmeaning, Except.toOption]⟩
        · cases h
      dsimp only
      split
      · rename_i hnothing
        refine .pure fun hmeaning hreached => ?_
        obtain ⟨hresolve, hfound⟩ := hscalar hmeaning hreached
        refine ⟨by simp [Document.value?, hfound, hnothing], fun _ => ?_⟩
        simp [Document.isNothing, hresolve, hmeaning, hnothing, Except.toOption]
      · rename_i hsomething
        split
        · rename_i a ha
          refine .pure fun hmeaning hreached => ?_
          obtain ⟨-, hfound⟩ := hscalar hmeaning hreached
          exact ⟨by simp [Document.value?, hfound, hsomething, ha], nofun⟩
        · exact .bind .note fun _ => .pure False.elim
  | sequence line tag items => exact .bind .note fun _ => .pure False.elim
  | mapping line tag pairs => exact .bind (.refuseMapping _ _ _ _) fun _ => .pure False.elim
  | reference mark name target =>
      refine .pure fun hreached => ?_
      obtain hresolve | ⟨hresolve, -⟩ := resolve_of_reached hreached
      · simp [Document.value?, Document.scalar?, Document.isNothing, hresolve]
      · simp [Document.value?, Document.scalar?, Document.isNothing, hresolve]

/-! ## The decisions of pairs -/

namespace Document

/-- The text that a key is. -/
def name? (document : Document) (key : Node) : Option Bytes := document.value? (.text id) key

/-- The decision of a pair of a mapping. -/
def decision? (document : Document) (pair : Node × Node) : Option Setting :=
  (document.name? pair.1).bind fun name =>
    (slots.lookup name).bind fun slot => document.value? slot pair.2

end Document

/-- The pairs of a mapping name settings, each at most once, other than those that are
`done`; and whatever is not nothing fits. -/
structure Fits (document : Document) (done : List Bytes) (pairs : List (Node × Node)) : Prop where
  named : ∀ pair ∈ pairs, document.name? pair.1 = none → document.isNothing pair.1
  known : ∀ pair ∈ pairs, ∀ name, document.name? pair.1 = some name →
    ∃ slot, slots.lookup name = some slot ∧
      (document.value? slot pair.2 = none → document.isNothing pair.2)
  distinct : (pairs.filterMap fun pair => document.name? pair.1).Nodup
  fresh : ∀ pair ∈ pairs, ∀ name ∈ done, document.name? pair.1 ≠ some name

theorem Fits.nil (document : Document) (done : List Bytes) : Fits document done [] :=
  ⟨nofun, nofun, .nil, nofun⟩

theorem Fits.cons_nothing {document : Document} {done : List Bytes} {pair : Node × Node}
    {pairs : List (Node × Node)} (hname : document.name? pair.1 = none)
    (hnothing : document.isNothing pair.1) (h : Fits document done pairs) :
    Fits document done (pair :: pairs) where
  named := List.forall_mem_cons.mpr ⟨fun _ => hnothing, h.named⟩
  known := List.forall_mem_cons.mpr ⟨fun name hsome => by simp [hname] at hsome, h.known⟩
  distinct := by rw [List.filterMap_cons, hname]; exact h.distinct
  fresh := List.forall_mem_cons.mpr ⟨fun name _ => by simp [hname], h.fresh⟩

theorem Fits.cons_name {document : Document} {done : List Bytes} {pair : Node × Node}
    {pairs : List (Node × Node)} {name : Bytes} {slot : Slot Setting}
    (hname : document.name? pair.1 = some name) (hslot : slots.lookup name = some slot)
    (hvalue : document.value? slot pair.2 = none → document.isNothing pair.2)
    (hdone : name ∉ done) (h : Fits document (name :: done) pairs) :
    Fits document done (pair :: pairs) where
  named := List.forall_mem_cons.mpr ⟨fun hnone => by simp [hname] at hnone, h.named⟩
  known := by
    refine List.forall_mem_cons.mpr ⟨fun name' hsome => ?_, h.known⟩
    obtain rfl : name = name' := Option.some.inj (hname.symm.trans hsome)
    exact ⟨slot, hslot, hvalue⟩
  distinct := by
    rw [List.filterMap_cons, hname]
    refine List.nodup_cons.mpr ⟨fun hmem => ?_, h.distinct⟩
    obtain ⟨other, hother, hsame⟩ := List.mem_filterMap.mp hmem
    exact h.fresh other hother name List.mem_cons_self hsame
  fresh := by
    refine List.forall_mem_cons.mpr ⟨fun name' hmem hsome => ?_, fun p hp name' hmem =>
      h.fresh p hp name' (List.mem_cons_of_mem _ hmem)⟩
    obtain rfl : name = name' := Option.some.inj (hname.symm.trans hsome)
    exact hdone hmem

theorem decision?_eq {document : Document} {key : Node} {name : Bytes} {slot : Slot Setting}
    (hname : document.name? key = some name) (hslot : slots.lookup name = some slot)
    (value : Node) : document.decision? (key, value) = document.value? slot value := by
  rw [Document.decision?, hname, Option.bind_some, hslot, Option.bind_some]

/-- Without problems the decisions of the pairs are found in order, the latest first. -/
theorem clean_settingsFrom (document : Document) (followed : List Mark) (tag : Bytes)
    (decided : List Setting) (done : List Bytes) {pairs : List (Node × Node)}
    (hplain : ∀ pair ∈ pairs, isMerge pair.1 = false) :
    Clean (settingsFrom document followed tag decided none done pairs) fun found =>
      Fits document done pairs ∧
        found.1 = (pairs.filterMap document.decision?).reverse ++ decided := by
  induction pairs generalizing decided done with
  | nil => exact .pure ⟨.nil document done, rfl⟩
  | cons pair pairs ih =>
      obtain ⟨key, value⟩ := pair
      obtain ⟨hkey, hplain⟩ := List.forall_mem_cons.mp hplain
      rw [settingsFrom]
      simp only [hkey, Bool.false_eq_true, if_false]
      refine .bind (clean_fill document followed (.text id) key) fun name => ?_
      cases name with
      | none =>
          refine (ih decided done hplain).imp ?_
          rintro found ⟨hfits, hfound⟩ ⟨hname, hnothing⟩
          have hdecision : document.decision? (key, value) = none := by
            rw [Document.decision?, Document.name?, ← hname, Option.bind_none]
          refine ⟨.cons_nothing hname.symm (hnothing rfl) hfits, ?_⟩
          rw [List.filterMap_cons, hdecision, hfound]
      | some name =>
          simp only [isHidden, Option.any_none, Bool.false_eq_true, if_false, Option.map_none]
          -- A key that is unknown or named before is a problem, so its case is impossible.
          have himpossible (p : Problem) : Clean
              (do
                Find.note [p]
                settingsFrom document followed tag decided none done pairs)
              fun found => (some name = document.name? key ∧
                  (some name = none → document.isNothing key)) →
                Fits document done ((key, value) :: pairs) ∧
                  found.1 = (((key, value) :: pairs).filterMap document.decision?).reverse ++
                    decided :=
            .bind .note fun _ => (ih decided done hplain).imp fun _ _ hfalse => hfalse.elim
          split
          · exact himpossible _
          · rename_i slot hslot
            split
            · exact himpossible _
            · rename_i hdone
              split
              · exact .bind (.visit followed) fun _ => .throw
              · refine .bind (clean_fill document followed slot value) fun decision => ?_
                refine (ih (decision.toList ++ decided) (name :: done) hplain).imp ?_
                rintro found ⟨hfits, hfound⟩ ⟨hvalue, hnothing⟩ ⟨hname, -⟩
                refine ⟨.cons_name hname.symm hslot (hvalue ▸ hnothing) ?_ hfits, ?_⟩
                · simpa using hdone
                · rw [List.filterMap_cons, decision?_eq hname.symm hslot, ← hvalue, hfound]
                  cases decision <;> simp

/-! ## The decisions of a file -/

theorem merged?_eq_none {pairs : List (Node × Node)}
    (hplain : ∀ pair ∈ pairs, isMerge pair.1 = false) : merged? pairs = none := by
  have hnone : (pairs.filter fun pair => isMerge pair.1) = [] := by simpa using hplain
  rw [merged?, hnone]
  rfl

/-- A mapping into which nothing is merged holds the decisions of its pairs. -/
theorem hold_eq_ok {document : Document} {fuel : Nat} {followed : List Mark} {tag : Bytes}
    {pairs : List (Node × Node)} (hplain : ∀ pair ∈ pairs, isMerge pair.1 = false)
    {f f' : Findings} {found : Option Holder}
    (h : (hold document (fuel + 1) followed tag pairs (.settings [])).run f = .ok (found, f'))
    (hhidden : f.hidden = none) (hclean : f'.problems = []) :
    Fits document [] pairs ∧
      found = some (.settings (pairs.filterMap document.decision?).reverse) := by
  rw [hold] at h
  cases hrepetitions : repetitions pairs with
  | nil =>
      rw [hrepetitions, StateT.run_bind] at h
      obtain ⟨⟨hidden, mid⟩, htake, h⟩ := bind_eq_ok_iff.mp h
      obtain rfl : hidden = none := by
        cases htake
        exact hhidden
      refine (Clean.of_run (P := fun found => Fits document [] pairs ∧
        found = some (.settings (pairs.filterMap document.decision?).reverse)) ?_ h hclean).2
      dsimp only
      refine .bind (clean_settingsFrom document followed tag [] [] hplain) ?_
      rintro ⟨decided, hidden⟩
      dsimp only
      rw [pure_bind, merged?_eq_none hplain]
      refine .bind (.hide hidden) fun _ => .pure ?_
      rintro - ⟨hfits, rfl⟩
      exact ⟨hfits, by rw [List.append_nil]⟩
  | cons p ps =>
      rw [hrepetitions] at h
      have himpossible : Clean (do Find.note (p :: ps); return (none : Option Holder))
          fun _ => False :=
        .bind .note fun _ => .pure id
      exact (himpossible.of_run h hclean).2.elim

namespace Document

/-- The pairs of the mapping that a document is; it may be something else. -/
def pairs (document : Document) : List (Node × Node) :=
  match document.resolve document.root with
  | some (.mapping _ _ pairs) => pairs
  | _ => []

/-- Whether nothing is merged into the mapping that a document is. -/
def IsPlain (document : Document) : Prop := ∀ pair ∈ document.pairs, isMerge pair.1 = false

end Document

theorem pairs_eq_nil {document : Document} {root : Node}
    (hroot : root = (document.resolve document.root).getD document.root)
    (h : ∀ line tag pairs, root ≠ .mapping line tag pairs) : document.pairs = [] := by
  rw [Document.pairs]
  split
  · rename_i line tag pairs hresolve
    rw [hresolve] at hroot
    exact absurd hroot (h line tag pairs)
  · rfl

theorem settingsOf_eq_ok {document : Document} {fuel : Nat} (hplain : document.IsPlain)
    {f' : Findings} {decided : List Setting}
    (h : (settingsOf document (fuel + 1)).run {} = .ok (decided, f')) (hclean : f'.problems = []) :
    Fits document [] document.pairs ∧ decided = document.pairs.filterMap document.decision? := by
  rw [settingsOf, StateT.run_bind] at h
  obtain ⟨⟨_, counted⟩, hvisit, h⟩ := bind_eq_ok_iff.mp h
  rw [StateT.run_bind] at h
  obtain ⟨⟨⟨_, root⟩, mid⟩, hreach, h⟩ := bind_eq_ok_iff.mp h
  obtain ⟨-, hhidden, hroot⟩ := reach_eq_ok hreach
  have hnone : mid.hidden = none := hhidden.trans (visit_eq_ok hvisit).2
  have hreached := resolve_of_reached hroot
  cases root with
  | mapping line tag pairs =>
      obtain hresolve | ⟨-, _, _, _, hreference⟩ := hreached
      · have hpairs : document.pairs = pairs := by rw [Document.pairs, hresolve]
        rw [Document.IsPlain, hpairs] at hplain
        rw [hpairs]
        dsimp only at h
        rw [StateT.run_bind] at h
        obtain ⟨⟨found, last⟩, hhold, h⟩ := bind_eq_ok_iff.mp h
        have hlast : last.problems = [] := by
          split at h
          all_goals
            cases h
            exact hclean
        obtain ⟨hfits, rfl⟩ := hold_eq_ok hplain hhold hnone hlast
        cases h
        exact ⟨hfits, List.reverse_reverse _⟩
      · cases hreference
  | scalar line tag text =>
      rw [pairs_eq_nil hroot nofun]
      refine ⟨.nil document [], (Clean.of_run (P := fun decided => decided = []) ?_ h hclean).2⟩
      refine .bind (.meaning tag text) fun _ => ?_
      dsimp only
      split
      · exact .bind .note fun _ => .pure fun _ _ => rfl
      · exact .pure fun _ => rfl
  | sequence line tag items =>
      rw [pairs_eq_nil hroot nofun]
      refine ⟨.nil document [], (Clean.of_run (P := fun decided => decided = []) ?_ h hclean).2⟩
      exact .bind .note fun _ => .pure fun _ => rfl
  | reference mark name target =>
      cases h
      rw [pairs_eq_nil hroot nofun]
      exact ⟨.nil document [], rfl⟩

/-- A file whose document is a mapping into which nothing is merged holds the decisions
of its pairs. -/
theorem decisions_of_read {file : Bytes} {doc : Document}
    (hdocument : document file = .ok (some doc)) (hplain : doc.IsPlain) {decided : List Setting}
    (h : read file = .ok decided) :
    Fits doc [] doc.pairs ∧ decided = doc.pairs.filterMap doc.decision? := by
  rw [read] at h
  obtain ⟨found, hfound, h⟩ := bind_eq_ok_iff.mp h
  rw [hdocument] at hfound
  cases hfound
  obtain ⟨⟨settings, findings⟩, hsettings, h⟩ := bind_eq_ok_iff.mp h
  dsimp only at h
  split at h
  · rename_i hempty
    cases h
    obtain ⟨fuel, hfuel⟩ :=
      Nat.exists_eq_succ_of_ne_zero (n := 4 * (file.length + 2) * (file.length + 2)) (by simp)
    rw [hfuel] at hsettings
    exact settingsOf_eq_ok hplain hsettings (List.isEmpty_iff.mp hempty)
  · cases h

/-! ## The values under keys -/

/-- A slot whose value is turned into something else. -/
def mapped (g : α → β) : Slot α → Slot β
  | .text of => .text (g ∘ of)
  | .truth of => .truth (g ∘ of)
  | .whole of => .whole (g ∘ of)

theorem ofScalar?_mapped (g : α → β) (slot : Slot α) (meant : Scalar) (text : Bytes) :
    ofScalar? (mapped g slot) meant text = (ofScalar? slot meant text).map g := by
  cases slot with
  | text of => rfl
  | truth of =>
      cases meant with
      | text s =>
          simp only [mapped, ofScalar?]
          split
          · rfl
          · split <;> rfl
      | _ => rfl
  | whole of =>
      cases meant with
      | integer n =>
          simp only [mapped, ofScalar?]
          split <;> rfl
      | real x => simp [mapped, ofScalar?]
      | _ => rfl

theorem Document.value?_mapped (document : Document) (g : α → β) (slot : Slot α) (node : Node) :
    document.value? (mapped g slot) node = (document.value? slot node).map g := by
  rw [Document.value?, Document.value?, Option.map_bind]
  refine congrArg _ (funext fun ⟨meant, text⟩ => ?_)
  by_cases h : meant = .nothing
  · simp [h]
  · simp [h, ofScalar?_mapped]

/-- The value under a name in the mapping that a document is. -/
def Document.under? (document : Document) (name : Bytes) (slot : Slot α) : Option α :=
  (document.pairs.find? fun pair => document.name? pair.1 = some name).bind fun pair =>
    document.value? slot pair.2

/-- What a document says on each setting under its name. -/
def Document.keys (document : Document) : Keys where
  format := document.under? "format" (.text id)
  verbose := document.under? "verbose" (.truth id)
  store := document.under? "store" (.text id)
  graph := document.under? "graph" (.truth id)
  maxPasses := document.under? "max_passes" (.whole id)
  validateRules := document.under? "validate_rules" (.truth id)
  traceJoins := document.under? "trace_joins" (.truth id)

/-- The name of a setting. -/
def nameOf : Setting → Bytes
  | .format _ => "format"
  | .verbose _ => "verbose"
  | .store _ => "store"
  | .graph _ => "graph"
  | .maxPasses _ => "max_passes"
  | .validateRules _ => "validate_rules"
  | .traceJoins _ => "trace_joins"

theorem exists_of_value?_mapped {document : Document} (of : α → Setting) (slot : Slot α)
    {node : Node} {s : Setting} (h : document.value? (mapped of slot) node = some s) :
    ∃ a, of a = s := by
  rw [document.value?_mapped] at h
  obtain ⟨a, -, ha⟩ := Option.map_eq_some_iff.mp h
  exact ⟨a, ha⟩

/-- A slot under a name takes nothing but decisions on the setting of that name. -/
theorem nameOf_of_value? {document : Document} {name : Bytes} {slot : Slot Setting} {node : Node}
    {s : Setting} (hslot : slots.lookup name = some slot) (h : document.value? slot node = some s) :
    nameOf s = name := by
  have hmem : (name, slot) ∈ slots := by
    obtain ⟨before, after, heq, -⟩ := List.lookup_eq_some_iff.mp hslot
    simp [heq]
  simp only [slots, ownSlots, optionSlots, List.mem_append, List.mem_cons, Prod.mk.injEq,
    List.not_mem_nil, or_false] at hmem
  rcases hmem with (⟨rfl, rfl⟩ | ⟨rfl, rfl⟩ | ⟨rfl, rfl⟩ | ⟨rfl, rfl⟩) |
    ⟨rfl, rfl⟩ | ⟨rfl, rfl⟩ | ⟨rfl, rfl⟩
  · obtain ⟨a, rfl⟩ := exists_of_value?_mapped .format (.text id) h
    rfl
  · obtain ⟨a, rfl⟩ := exists_of_value?_mapped .verbose (.truth id) h
    rfl
  · obtain ⟨a, rfl⟩ := exists_of_value?_mapped .store (.text id) h
    rfl
  · obtain ⟨a, rfl⟩ := exists_of_value?_mapped .graph (.truth id) h
    rfl
  · obtain ⟨a, rfl⟩ := exists_of_value?_mapped .maxPasses (.whole id) h
    rfl
  · obtain ⟨a, rfl⟩ := exists_of_value?_mapped .validateRules (.truth id) h
    rfl
  · obtain ⟨a, rfl⟩ := exists_of_value?_mapped .traceJoins (.truth id) h
    rfl

/-- Of the decisions of pairs, those that `pick` picks are the values under one name. -/
theorem decision?_bind {document : Document} {pick : Setting → Option α} {of : α → Setting}
    {name : Bytes} {slot : Slot α} (hslot : slots.lookup name = some (mapped of slot))
    (hpick : ∀ a, pick (of a) = some a) (hother : ∀ s, nameOf s ≠ name → pick s = none)
    (pair : Node × Node) :
    (document.decision? pair).bind pick =
      if document.name? pair.1 = some name then document.value? slot pair.2 else none := by
  rw [Document.decision?]
  cases hname : document.name? pair.1 with
  | none => rfl
  | some name' =>
      rw [Option.bind_some]
      by_cases hsame : name' = name
      · rw [if_pos (congrArg some hsame), hsame, hslot, Option.bind_some, document.value?_mapped]
        cases document.value? slot pair.2 with
        | none => rfl
        | some a => exact hpick a
      · rw [if_neg (hsame <| Option.some.inj ·), Option.bind_eq_none_iff]
        intro s hs
        obtain ⟨slot', hslot', hvalue⟩ := Option.bind_eq_some_iff.mp hs
        exact hother s (nameOf_of_value? hslot' hvalue ▸ hsame)

/-- Where no two pairs have the same name, the last value under a name is the first. -/
theorem getLast?_decisions {document : Document} {pick : Setting → Option α} (of : α → Setting)
    {name : Bytes} {slot : Slot α} (hslot : slots.lookup name = some (mapped of slot))
    (hpick : ∀ a, pick (of a) = some a) (hother : ∀ s, nameOf s ≠ name → pick s = none)
    {pairs : List (Node × Node)}
    (hdistinct : (pairs.filterMap fun pair => document.name? pair.1).Nodup) :
    ((pairs.filterMap document.decision?).filterMap pick).getLast? =
      (pairs.find? fun pair => document.name? pair.1 = some name).bind fun pair =>
        document.value? slot pair.2 := by
  rw [List.filterMap_filterMap]
  induction pairs with
  | nil => rfl
  | cons pair pairs ih =>
      rw [List.filterMap_cons] at hdistinct
      rw [List.filterMap_cons, decision?_bind hslot hpick hother, List.find?_cons]
      by_cases hname : document.name? pair.1 = some name
      · rw [hname] at hdistinct
        have hlater : pairs.filterMap (fun p => (document.decision? p).bind pick) = [] := by
          refine List.filterMap_eq_nil_iff.mpr fun p hp => ?_
          rw [decision?_bind hslot hpick hother, if_neg]
          intro hsame
          exact (List.nodup_cons.mp hdistinct).1 (List.mem_filterMap.mpr ⟨p, hp, hsame⟩)
        rw [if_pos hname, hlater, decide_eq_true hname, Option.bind_some]
        cases document.value? slot pair.2 <;> rfl
      · rw [if_neg hname, decide_eq_false hname]
        refine ih ?_
        cases hpair : document.name? pair.1 with
        | none => rwa [hpair] at hdistinct
        | some other =>
            rw [hpair] at hdistinct
            exact (List.nodup_cons.mp hdistinct).2

theorem keys_ofDecisions {document : Document} (h : Fits document [] document.pairs) :
    Keys.ofDecisions (document.pairs.filterMap document.decision?) = document.keys := by
  rw [Keys.ofDecisions, Document.keys, Keys.mk.injEq]
  refine ⟨getLast?_decisions .format rfl (fun _ => rfl) ?_ h.distinct,
    getLast?_decisions .verbose rfl (fun _ => rfl) ?_ h.distinct,
    getLast?_decisions .store rfl (fun _ => rfl) ?_ h.distinct,
    getLast?_decisions .graph rfl (fun _ => rfl) ?_ h.distinct,
    getLast?_decisions .maxPasses rfl (fun _ => rfl) ?_ h.distinct,
    getLast?_decisions .validateRules rfl (fun _ => rfl) ?_ h.distinct,
    getLast?_decisions .traceJoins rfl (fun _ => rfl) ?_ h.distinct⟩
  all_goals
    rintro (_ | _ | _ | _ | _ | _ | _) hname
    all_goals first | rfl | exact absurd rfl hname

/-- What the file says on each setting. Where nothing is merged, it is the value under
the setting's name, and every value that is not nothing counts. -/
structure Says (file : Bytes) (keys : Keys) : Prop where
  decided : ∃ decided, read file = .ok decided ∧ keys = Keys.ofDecisions decided
  empty : document file = .ok none → keys = {}
  plain : ∀ doc, document file = .ok (some doc) → doc.IsPlain →
    Fits doc [] doc.pairs ∧ keys = doc.keys

theorem says_of_read {file : Bytes} {decided : List Setting} (h : read file = .ok decided) :
    Says file (Keys.ofDecisions decided) where
  decided := ⟨decided, h, rfl⟩
  empty := by
    intro hdocument
    rw [read] at h
    obtain ⟨found, hfound, h⟩ := bind_eq_ok_iff.mp h
    rw [hdocument] at hfound
    cases hfound
    cases h
    rfl
  plain := by
    intro doc hdocument hplain
    obtain ⟨hfits, rfl⟩ := decisions_of_read hdocument hplain h
    exact ⟨hfits, keys_ofDecisions hfits⟩

end Config

end LeastModel
