import LeastModel.Proofs.Unobserved

/-!
# What an observer is told

A run tells an observer of its milestones. The observer is never asked, so what
it is told depends on the run alone: the run has an outcome and a word of
milestones, the same for every observer (`Tells`). An observer that records
keeps the word behind what it has kept before (`Recorder.Appends.seeAll`), and
counts the passes in it (`Observer.passes_seeAll`).
-/

namespace LeastModel

/-! ## Words of milestones -/

def Milestone.isPass : Milestone → Bool
  | groupPass .. => true
  | _ => false

namespace Observer

/-- Takes in a milestone. That of a completed pass is counted as well. -/
def see (o : Observer) : Milestone → Observer
  | .groupPass group pass added => o.notePass group pass added
  | m => o.note m

def seeAll (o : Observer) (word : List Milestone) : Observer := word.foldl see o

theorem seeAll_append (o : Observer) (word more : List Milestone) :
    o.seeAll (word ++ more) = (o.seeAll word).seeAll more :=
  List.foldl_append

theorem see_of_not_isPass (o : Observer) {m : Milestone} (hm : m.isPass = false) :
    o.see m = o.note m := by
  cases m with
  | groupPass group pass added => cases hm
  | _ => rfl

theorem recorder_see (o : Observer) (m : Milestone) :
    (o.see m).recorder = o.recorder.record m.toEvent := by
  cases m <;> rfl

theorem passes_seeAll (o : Observer) (word : List Milestone) :
    (o.seeAll word).passes = o.passes + word.countP (·.isPass) := by
  induction word generalizing o with
  | nil => rfl
  | cons m word ih =>
      have hpasses : (o.see m).passes = o.passes + if m.isPass then 1 else 0 := by
        cases m <;> rfl
      rw [List.countP_cons]
      exact (ih (o.see m)).trans (by omega)

end Observer

/-- `r'` has kept and handed on the given events after those of `r`. -/
structure Recorder.Appends (r : Recorder) (events : List Event) (r' : Recorder) : Prop where
  listening : r'.listening = true
  events_eq : r'.events.toList = r.events.toList ++ events
  delivered_eq : r'.delivered.toList = r.delivered.toList ++ events

theorem Recorder.Appends.record {r r' : Recorder} {events : List Event}
    (h : r.Appends events r') (e : Event) : r.Appends (events ++ [e]) (r'.record e) := by
  rw [Recorder.record, if_pos h.listening]
  constructor
  · exact h.listening
  · simp [h.events_eq]
  · simp [h.delivered_eq]

theorem Recorder.Appends.seeAll {r : Recorder} {events : List Event} {o : Observer}
    (h : r.Appends events o.recorder) (word : List Milestone) :
    r.Appends (events ++ word.map (·.toEvent)) (o.seeAll word).recorder := by
  induction word generalizing events o with
  | nil =>
      rw [List.map_nil, List.append_nil]
      exact h
  | cons m word ih =>
      have hnext : r.Appends (events ++ [m.toEvent]) (o.see m).recorder := by
        rw [o.recorder_see m]
        exact h.record m.toEvent
      rw [List.map_cons, List.append_cons]
      exact ih hnext

/-! ## Computations that tell -/

/-- Whoever watches, the computation gives `a` and tells `word`. -/
def Tells {α : Type} (x : StateM Observer α) (a : α) (word : List Milestone) : Prop :=
  ∀ o : Observer, x.run o = (a, o.seeAll word)

theorem tells_pure {α : Type} (a : α) : Tells (pure a) a [] := fun _ => rfl

theorem Tells.bind {α β : Type} {x : StateM Observer α} {f : α → StateM Observer β} {a : α} {b : β}
    {word more : List Milestone} (hx : Tells x a word) (hf : Tells (f a) b more) :
    Tells (x >>= f) b (word ++ more) := by
  intro o
  change (f (x.run o).1).run (x.run o).2 = _
  rw [hx o, o.seeAll_append]
  exact hf (o.seeAll word)

namespace Run

def Tells {α : Type} (x : Run α) (r : Except Fault α) (word : List Milestone) : Prop :=
  LeastModel.Tells x.run r word

variable {α β : Type} {x : Run α} {f : α → Run β} {word more : List Milestone}

theorem tells_ofExcept (r : Except Fault α) : (ofExcept r).Tells r [] := fun _ => rfl

theorem Tells.yields {r : Except Fault α} (h : x.Tells r word) : x.Yields r :=
  fun o => congrArg Prod.fst (h o)

theorem Tells.bind_ok {a : α} {r : Except Fault β} (hx : x.Tells (.ok a) word)
    (hf : (f a).Tells r more) : (x >>= f).Tells r (word ++ more) := by
  change LeastModel.Tells (x.run >>= ExceptT.bindCont f) r (word ++ more)
  exact LeastModel.Tells.bind hx hf

theorem Tells.bind_error {fault : Fault} (hx : x.Tells (.error fault) word) :
    (x >>= f).Tells (.error fault) word := by
  change LeastModel.Tells (x.run >>= ExceptT.bindCont f) (.error fault) word
  rw [← List.append_nil word]
  exact LeastModel.Tells.bind hx (tells_pure _)

theorem Tells.bind_pure {a : α} (hx : x.Tells (.ok a) word) (g : α → β) :
    (x >>= fun a => pure (g a)).Tells (.ok (g a)) word := by
  rw [← List.append_nil word]
  exact hx.bind_ok (tells_pure _)

theorem Tells.note_bind {y : Run β} {r : Except Fault β} {m : Milestone} (hm : m.isPass = false)
    (hy : y.Tells r more) : (note m >>= fun _ => y).Tells r (m :: more) := by
  intro o
  refine (hy (o.note m)).trans ?_
  rw [← o.see_of_not_isPass hm]
  rfl

/-- Whoever watches, the computation tells `word`, and either gives a value for
which `done` holds or fails in a case where `failed` does. -/
inductive Logs (x : Run α) (word : List Milestone) (done : α → Prop) (failed : Prop) : Prop
  | done (a : α) (htells : x.Tells (.ok a) word) (h : done a)
  | failed (fault : Fault) (htells : x.Tells (.error fault) word) (h : failed)

namespace Logs

variable {done : α → Prop} {done' : β → Prop} {failed failed' : Prop}

/-- A computation that has nothing to tell, where both ends will do. -/
theorem of_ofExcept_bind {r : Except Fault α} (hf : ∀ a, (f a).Logs [] done' failed)
    (hfailed : failed) : (ofExcept r >>= f).Logs [] done' failed := by
  cases r with
  | error fault => exact .failed _ (tells_ofExcept _).bind_error hfailed
  | ok a =>
      rcases hf a with ⟨b, htells, h⟩ | ⟨fault, htells, h⟩
      · exact .done _ ((tells_ofExcept _).bind_ok htells) h
      · exact .failed _ ((tells_ofExcept _).bind_ok htells) h

theorem imp {done' : α → Prop} (h : x.Logs word done failed) (hdone : ∀ a, done a → done' a)
    (hfailed : failed → failed') : x.Logs word done' failed' := by
  rcases h with ⟨a, htells, h⟩ | ⟨fault, htells, h⟩
  · exact .done a htells (hdone a h)
  · exact .failed fault htells (hfailed h)

theorem bind_ok {a : α} (hx : x.Tells (.ok a) word) (h : (f a).Logs more done' failed) :
    (x >>= f).Logs (word ++ more) done' failed := by
  rcases h with ⟨b, htells, h⟩ | ⟨fault, htells, h⟩
  · exact .done _ (hx.bind_ok htells) h
  · exact .failed _ (hx.bind_ok htells) h

theorem bind_pure {g : α → β} (h : x.Logs word (fun a => done' (g a)) failed) :
    (x >>= fun a => pure (g a)).Logs word done' failed := by
  rcases h with ⟨b, htells, h⟩ | ⟨fault, htells, h⟩
  · exact .done _ (htells.bind_pure g) h
  · exact .failed _ htells.bind_error h

theorem note_bind {m : Milestone} (hm : m.isPass = false) (h : x.Logs word done failed) :
    (note m >>= fun _ => x).Logs (m :: word) done failed := by
  rcases h with ⟨b, htells, h⟩ | ⟨fault, htells, h⟩
  · exact .done _ (htells.note_bind hm) h
  · exact .failed _ (htells.note_bind hm) h

end Logs

end Run

end LeastModel
