import LeastModel.Proofs.Relation
import LeastModel.Proofs.WorldRuns
import Mathlib.Tactic.Tauto

/-!
# Directories and stores of a world

Opening a store makes the directories on the way to it, and nothing else. From
then on the path leads to the place that it led to when the directories were
made (`locate_of_makeDirectories`), so a store that is kept is there
(`holds_keepStore`) and is the one that is opened next (`Holds.openStore`).
-/

namespace LeastModel.Command.World

/-! ## Trees of directories -/

/-- The same files, directories and stores. -/
structure SameTree (w w' : World) : Prop where
  files : w'.files = w.files
  directories : w'.directories = w.directories
  stores : w'.stores = w.stores

theorem SameTree.refl (w : World) : w.SameTree w := ⟨rfl, rfl, rfl⟩

/-- The world has been given more directories. -/
def Grows (w w' : World) : Prop := ∃ made, w' = { w with directories := made ++ w.directories }

theorem Grows.refl (w : World) : w.Grows w := ⟨[], rfl⟩

theorem Grows.trans {w w' w'' : World} (h : w.Grows w') (h' : w'.Grows w'') : w.Grows w'' := by
  obtain ⟨made, rfl⟩ := h
  obtain ⟨more, rfl⟩ := h'
  exact ⟨more ++ made, by simp⟩

theorem Grows.isDirectory {w w' : World} (h : w.Grows w') {p : Place}
    (hp : w.isDirectory p = true) : w'.isDirectory p = true := by
  obtain ⟨made, rfl⟩ := h
  simp only [World.isDirectory, Bool.or_eq_true, List.contains_append] at hp ⊢
  tauto

theorem enter_eq_ok_iff {w : World} {p : Place} : w.enter p = .ok () ↔ w.isDirectory p = true := by
  rw [enter]
  by_cases hp : w.isDirectory p = true
  · simp [hp]
  · simp only [hp, if_false, Bool.false_eq_true, iff_false]
    split <;> simp

/-- A path is followed through files and directories alone. -/
theorem SameTree.locate_eq {w w' : World} (h : w.SameTree w') (path : Bytes) :
    w'.locate path = w.locate path := by
  obtain ⟨files, directories, stores, input, output, refusal, notes⟩ := w
  obtain ⟨files', directories', stores', input', output', refusal', notes'⟩ := w'
  obtain ⟨rfl, rfl, rfl⟩ := h
  rfl

theorem SameTree.isDirectory_eq {w w' : World} (h : w.SameTree w') (p : Place) :
    w'.isDirectory p = w.isDirectory p := by
  rw [isDirectory, isDirectory, h.files, h.directories]

theorem SameTree.store?_eq {w w' : World} (h : w.SameTree w') (p : Place) :
    w'.store? p = w.store? p := by
  rw [store?, store?, h.stores]

/-! ## Making directories -/

theorem gives_makeDirectory {w : World} {p : Place} (hp : w.isDirectory p = true) :
    Gives (makeDirectory p) w () w := by
  refine gives_bind.mpr ⟨w, w, rfl, ?_⟩
  rw [enter_eq_ok_iff.mpr hp]
  exact gives_pure.mpr ⟨rfl, rfl⟩

theorem of_gives_makeDirectory {w w' : World} {p : Place}
    (h : Gives (makeDirectory p) w () w') : w.Grows w' ∧ w'.isDirectory p = true := by
  obtain ⟨_, _, hget, h⟩ := gives_bind.mp h
  cases hget
  cases henter : w.enter p with
  | ok _ =>
      rw [henter] at h
      obtain ⟨-, rfl⟩ := gives_pure.mp h
      exact ⟨.refl w, enter_eq_ok_iff.mp henter⟩
  | error fault =>
      rw [henter] at h
      cases fault with
      | missing =>
          cases h
          exact ⟨⟨[p], rfl⟩, by simp [isDirectory]⟩
      | notDirectory => exact absurd h not_gives_throw
      | tooLong => exact absurd h not_gives_throw
      | malformed => exact absurd h not_gives_throw

/-- A step that makes the directory from which it is taken. -/
def makeStep (p : Place) (name : Bytes) : ExceptT PathFault (StateM World) Place := do
  makeDirectory p
  liftExcept (p.step name)

/-- A step from a directory. -/
def walkStep (w : World) (p : Place) (name : Bytes) : Except PathFault Place := do
  w.enter p
  p.step name

theorem walkStep_eq_ok_iff {w : World} {p q : Place} {name : Bytes} :
    w.walkStep p name = .ok q ↔ w.isDirectory p = true ∧ p.step name = .ok q := by
  rw [walkStep, bind_eq_ok_iff, ← enter_eq_ok_iff]
  constructor
  · rintro ⟨⟨⟩, henter, hstep⟩
    exact ⟨henter, hstep⟩
  · rintro ⟨henter, hstep⟩
    exact ⟨(), henter, hstep⟩

theorem gives_makeStep {w w' : World} {p q : Place} {name : Bytes} :
    Gives (makeStep p name) w q w' ↔ Gives (makeDirectory p) w () w' ∧ p.step name = .ok q := by
  rw [makeStep, gives_bind]
  simp only [gives_liftExcept]
  constructor
  · rintro ⟨_, _, hmake, hstep, rfl⟩
    exact ⟨hmake, hstep⟩
  · rintro ⟨hmake, hstep⟩
    exact ⟨(), w', hmake, hstep, rfl⟩

/-- Whoever walks after directories were made comes to the same place, also if
more have been made since. -/
theorem walk_of_gives_foldlM {names : List Bytes} {w w' : World} {p q : Place}
    (h : Gives (names.foldlM makeStep p) w q w') :
    w.Grows w' ∧ ∀ later, w'.Grows later → names.foldlM later.walkStep p = .ok q := by
  induction names generalizing w p with
  | nil =>
      obtain ⟨rfl, rfl⟩ := gives_pure.mp h
      exact ⟨.refl w, fun _ _ => rfl⟩
  | cons name names ih =>
      rw [List.foldlM_cons] at h
      obtain ⟨next, mid, hstep, hrest⟩ := gives_bind.mp h
      obtain ⟨hmake, hstep⟩ := gives_makeStep.mp hstep
      obtain ⟨hgrows, hp⟩ := of_gives_makeDirectory hmake
      obtain ⟨hgrows', hwalk⟩ := ih hrest
      refine ⟨hgrows.trans hgrows', ?_⟩
      intro later hlater
      have hpLater := (hgrows'.trans hlater).isDirectory hp
      rw [List.foldlM_cons]
      exact bind_eq_ok_iff.mpr
        ⟨next, walkStep_eq_ok_iff.mpr ⟨hpLater, hstep⟩, hwalk later hlater⟩

/-- Whoever can walk has no directories to make. -/
theorem gives_foldlM_of_walk {names : List Bytes} {w : World} {p q : Place}
    (h : names.foldlM w.walkStep p = .ok q) : Gives (names.foldlM makeStep p) w q w := by
  induction names generalizing p with
  | nil => exact gives_pure.mpr ⟨Except.ok.inj h, rfl⟩
  | cons name names ih =>
      rw [List.foldlM_cons] at h ⊢
      obtain ⟨next, hstep, hrest⟩ := bind_eq_ok_iff.mp h
      obtain ⟨hp, hstep⟩ := walkStep_eq_ok_iff.mp hstep
      exact gives_bind.mpr
        ⟨next, w, gives_makeStep.mpr ⟨gives_makeDirectory hp, hstep⟩, ih hrest⟩

theorem locate_eq_ok_iff {w : World} {path : Bytes} {p : Place} :
    w.locate path = .ok p ↔ Path.check path = .ok () ∧
      (Path.names path).foldlM w.walkStep (Path.origin path) = .ok p := by
  rw [locate, bind_eq_ok_iff]
  constructor
  · rintro ⟨⟨⟩, hcheck, hwalk⟩
    exact ⟨hcheck, hwalk⟩
  · rintro ⟨hcheck, hwalk⟩
    exact ⟨(), hcheck, hwalk⟩

theorem gives_makeDirectories_iff {w w' : World} {path : Bytes} {p : Place} :
    Gives (makeDirectories path) w p w' ↔
      Path.check path = .ok () ∧
        ∃ mid, Gives ((Path.names path).foldlM makeStep (Path.origin path)) w p mid ∧
          Gives (makeDirectory p) mid () w' := by
  constructor
  · intro h
    obtain ⟨⟨⟩, _, hlift, h⟩ := gives_bind.mp h
    obtain ⟨hcheck, rfl⟩ := gives_liftExcept.mp hlift
    obtain ⟨q, mid, hwalk, h⟩ := gives_bind.mp h
    obtain ⟨⟨⟩, _, hmake, h⟩ := gives_bind.mp h
    obtain ⟨rfl, rfl⟩ := gives_pure.mp h
    exact ⟨hcheck, mid, hwalk, hmake⟩
  · rintro ⟨hcheck, mid, hwalk, hmake⟩
    refine gives_bind.mpr ⟨(), w, gives_liftExcept.mpr ⟨hcheck, rfl⟩, ?_⟩
    refine gives_bind.mpr ⟨p, mid, hwalk, ?_⟩
    exact gives_bind.mpr ⟨(), w', hmake, gives_pure.mpr ⟨rfl, rfl⟩⟩

/-- The path leads to the directory that was made. -/
theorem locate_of_makeDirectories {w w' : World} {path : Bytes} {p : Place}
    (h : Gives (makeDirectories path) w p w') :
    w.Grows w' ∧ w'.locate path = .ok p ∧ w'.isDirectory p = true := by
  obtain ⟨hcheck, mid, hwalk, hmake⟩ := gives_makeDirectories_iff.mp h
  obtain ⟨hgrows, hwalk⟩ := walk_of_gives_foldlM hwalk
  obtain ⟨hgrows', hp⟩ := of_gives_makeDirectory hmake
  exact ⟨hgrows.trans hgrows', locate_eq_ok_iff.mpr ⟨hcheck, hwalk w' hgrows'⟩, hp⟩

theorem makeDirectories_of_locate {w : World} {path : Bytes} {p : Place}
    (h : w.locate path = .ok p) (hp : w.isDirectory p = true) :
    Gives (makeDirectories path) w p w := by
  obtain ⟨hcheck, hwalk⟩ := locate_eq_ok_iff.mp h
  exact gives_makeDirectories_iff.mpr
    ⟨hcheck, w, gives_foldlM_of_walk hwalk, gives_makeDirectory hp⟩

/-! ## Stores -/

theorem openStore_eq_ok_iff {w w' : World} {directory : Bytes} {s : Store} :
    w.openStore directory = (.ok s, w') ↔
      ∃ p, Gives (makeDirectories directory) w p w' ∧ s = (w'.store? p).getD .empty := by
  unfold openStore Gives
  rcases (makeDirectories directory).run.run w with ⟨fault | p, mid⟩
  · constructor
    · intro h
      cases congrArg Prod.fst h
    · rintro ⟨p, hp, -⟩
      cases congrArg Prod.fst hp
  · constructor
    · intro h
      cases h
      exact ⟨p, rfl, rfl⟩
    · rintro ⟨q, hq, rfl⟩
      cases hq
      rfl

theorem store?_withStore (w : World) (p : Place) (s : Store) :
    (w.withStore p s).store? p = some s :=
  List.lookup_cons_self

/-- The path leads to a directory in which the store is. -/
def Holds (w : World) (directory : Bytes) (s : Store) : Prop :=
  ∃ p, w.locate directory = .ok p ∧ w.isDirectory p = true ∧ w.store? p = some s

theorem Holds.of_sameTree {w w' : World} {directory : Bytes} {s : Store}
    (h : w.Holds directory s) (htree : w.SameTree w') : w'.Holds directory s := by
  obtain ⟨p, hlocate, hp, hs⟩ := h
  exact ⟨p, (htree.locate_eq directory).trans hlocate, (htree.isDirectory_eq p).trans hp,
    (htree.store?_eq p).trans hs⟩

theorem Holds.storeExists {w : World} {directory : Bytes} {s : Store} (h : w.Holds directory s) :
    w.storeExists directory = true := by
  obtain ⟨p, hlocate, hp, -⟩ := h
  simp [World.storeExists, hlocate, isOccupied, hp]

/-- Opening a store that is there changes nothing. -/
theorem Holds.openStore {w : World} {directory : Bytes} {s : Store} (h : w.Holds directory s) :
    w.openStore directory = (.ok s, w) := by
  obtain ⟨p, hlocate, hp, hs⟩ := h
  exact openStore_eq_ok_iff.mpr ⟨p, makeDirectories_of_locate hlocate hp, by rw [hs]; rfl⟩

/-- A store that is kept after one was opened is there, and nothing has been printed. -/
theorem holds_keepStore {w w' : World} {directory : Bytes} {s : Store}
    (h : w.openStore directory = (.ok s, w')) (s' : Store) :
    (w'.keepStore directory s').Holds directory s' ∧
      (w'.keepStore directory s').output = w.output := by
  obtain ⟨p, hmake, -⟩ := openStore_eq_ok_iff.mp h
  obtain ⟨⟨made, rfl⟩, hlocate, hp⟩ := locate_of_makeDirectories hmake
  rw [keepStore, hlocate]
  exact ⟨⟨p, hlocate, hp, store?_withStore _ p s'⟩, rfl⟩

end LeastModel.Command.World
