import LeastModel.Command.World

/-!
# Runs of commands in a world

A step of a command *gives* a value and another world, or it fails. The steps
of a command are taken apart by `gives_bind`. What they do to a world is said by
giving the world afterwards as a record: logging changes the notes alone, and
printing the output alone, to which the pieces are appended
(`exists_printed_of_forM`). An output that refuses nothing takes all of them
(`gives_forM`).
-/

namespace LeastModel.Command.World

variable {ε α β : Type} {libraries : Libraries}

/-- From the world `w`, the computation gives `a` and leaves the world `w'`. -/
def Gives (x : ExceptT ε (StateM World) α) (w : World) (a : α) (w' : World) : Prop :=
  x.run.run w = (.ok a, w')

theorem gives_pure {w w' : World} {a b : α} :
    Gives (pure a : ExceptT ε (StateM World) α) w b w' ↔ a = b ∧ w = w' := by
  change ((Except.ok a, w) : Except ε α × World) = (.ok b, w') ↔ _
  simp

theorem not_gives_throw {w w' : World} {fault : ε} {a : α} :
    ¬Gives (throw fault : ExceptT ε (StateM World) α) w a w' := by
  intro h
  cases congrArg Prod.fst h

theorem gives_bind {x : ExceptT ε (StateM World) α} {f : α → ExceptT ε (StateM World) β}
    {w w' : World} {b : β} :
    Gives (x >>= f) w b w' ↔ ∃ a mid, Gives x w a mid ∧ Gives (f a) mid b w' := by
  have hrun : (x >>= f).run.run w =
      (ExceptT.bindCont f (x.run.run w).1).run (x.run.run w).2 := rfl
  unfold Gives
  rw [hrun]
  rcases x.run.run w with ⟨fault | a, mid⟩
  · constructor
    · intro h
      cases congrArg Prod.fst h
    · rintro ⟨_, _, h, -⟩
      cases congrArg Prod.fst h
  · constructor
    · exact fun h => ⟨a, mid, rfl, h⟩
    · rintro ⟨_, _, h, hrest⟩
      cases h
      exact hrest

theorem gives_liftExcept {r : Except ε α} {w w' : World} {a : α} :
    Gives (liftExcept r : ExceptT ε (StateM World) α) w a w' ↔ r = .ok a ∧ w = w' := by
  cases r with
  | error fault => exact iff_of_false not_gives_throw (by simp)
  | ok b => exact gives_pure.trans (by simp)

/-- A step that cannot fail. -/
theorem gives_lift {x : StateM World α} {w w' : World} {a : α} :
    Gives (liftM x : ExceptT ε (StateM World) α) w a w' ↔ x.run w = (a, w') := by
  have hrun : (liftM x : ExceptT ε (StateM World) α).run.run w =
      (.ok (x.run w).1, (x.run w).2) := rfl
  rw [Gives, hrun, Prod.ext_iff, Prod.ext_iff, Except.ok.injEq]

theorem gives_orElseFail {cause : ε → CommandFault} {step : StateM World (Except ε α)}
    {w w' : World} {a : α} :
    Gives (orElseFail cause step) w a w' ↔ step.run w = (.ok a, w') := by
  rw [orElseFail, gives_bind]
  simp only [gives_lift]
  constructor
  · rintro ⟨fault | b, mid, hstep, h⟩
    · exact absurd h not_gives_throw
    · obtain ⟨rfl, rfl⟩ := gives_pure.mp h
      exact hstep
  · exact fun hstep => ⟨.ok a, w', hstep, gives_pure.mpr ⟨rfl, rfl⟩⟩

theorem gives_orElseFail_pure {cause : ε → CommandFault} {r : Except ε α} {w w' : World} {a : α} :
    Gives (orElseFail cause (pure r : StateM World (Except ε α))) w a w' ↔ r = .ok a ∧ w = w' :=
  gives_orElseFail.trans Prod.ext_iff

/-! ## Printing -/

/-- The world in which the pieces have been printed, with an output that takes
`left` more of them. -/
def printed (w : World) (pieces : List Bytes) (left : Option Nat) : World :=
  { w with output := ⟨w.output.pieces ++ pieces.toArray, left⟩ }

theorem written_printed (w : World) (pieces : List Bytes) (left : Option Nat) :
    (w.printed pieces left).output.written = w.output.written ++ pieces.flatten := by
  simp [printed, Sink.written]

theorem printed_printed (w : World) (pieces more : List Bytes) (left left' : Option Nat) :
    (w.printed pieces left).printed more left' = w.printed (pieces ++ more) left' := by
  simp [printed]

theorem printed_nil (w : World) : w.printed [] w.output.left = w := by
  simp [printed]

theorem print_eq (w : World) (piece : Bytes) :
    w.print piece =
      match w.output.left with
      | none => (.ok (), w.printed [piece] none)
      | some 0 => (.error w.refusal, w)
      | some (n + 1) => (.ok (), w.printed [piece] (some n)) := by
  obtain ⟨files, directories, stores, input, ⟨pieces, left⟩, refusal, notes⟩ := w
  match left with
  | none => rfl
  | some 0 => rfl
  | some (n + 1) => rfl

theorem exists_printed_of_print {w w' : World} {piece : Bytes}
    (h : w.print piece = (.ok (), w')) : ∃ left, w' = w.printed [piece] left := by
  rw [print_eq] at h
  match hleft : w.output.left with
  | none =>
      rw [hleft] at h
      exact ⟨none, (congrArg Prod.snd h).symm⟩
  | some 0 =>
      rw [hleft] at h
      cases congrArg Prod.fst h
  | some (n + 1) =>
      rw [hleft] at h
      exact ⟨some n, (congrArg Prod.snd h).symm⟩

theorem gives_printOrFail {w w' : World} {piece : Bytes} :
    Gives ((host libraries).printOrFail piece) w () w' ↔ w.print piece = (.ok (), w') :=
  gives_orElseFail

theorem exists_printed_of_forM {pieces : List Bytes} {w w' : World}
    (h : Gives (pieces.forM (host libraries).printOrFail) w () w') :
    ∃ left, w' = w.printed pieces left := by
  induction pieces generalizing w with
  | nil =>
      obtain ⟨-, rfl⟩ := gives_pure.mp h
      exact ⟨w.output.left, w.printed_nil.symm⟩
  | cons piece pieces ih =>
      obtain ⟨_, mid, hpiece, hpieces⟩ := gives_bind.mp h
      obtain ⟨left, rfl⟩ := exists_printed_of_print (gives_printOrFail.mp hpiece)
      obtain ⟨left', rfl⟩ := ih hpieces
      exact ⟨left', printed_printed _ _ _ _ _⟩

/-- Where every piece is printed, a list of pieces is. -/
theorem gives_forM {put : α → ExceptT ε (StateM World) Unit} {piece : α → Bytes}
    (hput : ∀ w x, w.output.left = none → Gives (put x) w () (w.printed [piece x] none))
    (xs : List α) {w : World} (hw : w.output.left = none) :
    Gives (xs.forM put) w () (w.printed (xs.map piece) none) := by
  induction xs generalizing w with
  | nil => exact gives_pure.mpr ⟨rfl, hw ▸ w.printed_nil.symm⟩
  | cons x xs ih =>
      refine gives_bind.mpr ⟨(), _, hput w x hw, ?_⟩
      have hrest := ih (w := w.printed [piece x] none) rfl
      rwa [printed_printed] at hrest

/-- An output that refuses nothing takes a piece, whether or not it has to. -/
theorem gives_print_of_unlimited {w : World} (h : w.output.left = none) (piece : Bytes) :
    Gives ((host libraries).printOrFail piece) w () (w.printed [piece] none) ∧
      Gives ((host libraries).printIfPossible piece) w () (w.printed [piece] none) := by
  have hprint : w.print piece = (.ok (), w.printed [piece] none) := by rw [print_eq, h]
  refine ⟨gives_printOrFail.mpr hprint, ?_⟩
  refine gives_bind.mpr ⟨.ok (), _, gives_lift.mpr hprint, gives_pure.mpr ⟨rfl, rfl⟩⟩

/-! ## Logging -/

theorem exists_notes_of_log {text : Bytes} {w w' : World}
    (h : Gives (liftM ((host libraries).log text) : ExceptT ε (StateM World) Unit) w () w') :
    ∃ notes, w' = { w with notes } :=
  ⟨w.notes.push text, (congrArg Prod.snd (gives_lift.mp h)).symm⟩

theorem exists_notes_of_forM {text : α → Bytes} {xs : List α} {w w' : World}
    (h : Gives (xs.forM fun x =>
      (liftM ((host libraries).log (text x)) : ExceptT ε (StateM World) Unit)) w () w') : ∃ notes, w' = { w with notes } := by
  induction xs generalizing w with
  | nil =>
      obtain ⟨-, rfl⟩ := gives_pure.mp h
      exact ⟨w.notes, rfl⟩
  | cons x xs ih =>
      obtain ⟨_, mid, hx, hxs⟩ := gives_bind.mp h
      obtain ⟨notes, rfl⟩ := exists_notes_of_log hx
      obtain ⟨notes', rfl⟩ := ih hxs
      exact ⟨notes', rfl⟩

end LeastModel.Command.World
