import LeastModel.Event.Milestone
import Mathlib.Data.List.Forall2

/-!
# What is recorded of a milestone

An event *tells of* a milestone when it has the name of its kind and, under each
key, what the milestone is about. This is said of the event alone: by its name
and by what is found in its data.

A milestone has no two values for one key, so that each value is found under its
key (`Milestone.get?_toEvent`).

## Main statement

`Milestone.toEvent_tellsOf`: what is recorded of a milestone tells of it.
-/

namespace LeastModel

namespace Event

/-- The event has the name and the data of such a milestone. -/
def TellsOf (e : Event) : Milestone → Prop
  | .programLoaded relations facts tuples =>
      e.name = "program/loaded" ∧ e.get? "relations.count" = some (.int relations) ∧
        e.get? "facts.count" = some (.int facts) ∧ e.get? "tuples.count" = some (.int tuples)
  | .rulesGrouped rules plan =>
      e.name = "rules/grouped" ∧ e.get? "rules.count" = some (.int rules) ∧
        e.get? "group.count" = some (.int plan.groups.length) ∧
        e.get? "recursive.count" = some (.int plan.recursiveGroups) ∧
        e.get? "plan" = some (.text plan.render)
  | .groupBegin group =>
      e.name = "group/begin" ∧ e.get? "group" = some (.text group.render) ∧
        e.get? "recursive" = some (.flag group.recursive)
  | .groupPass group pass added =>
      e.name = "group/pass" ∧ e.get? "group" = some (.text group.render) ∧
        e.get? "pass" = some (.int pass) ∧ e.get? "tuples.added" = some (.int added)
  | .groupComplete group passes added =>
      e.name = "group/complete" ∧ e.get? "group" = some (.text group.render) ∧
        e.get? "passes" = some (.int passes) ∧ e.get? "tuples.added" = some (.int added)
  | .ruleEvaluated rule derived added =>
      e.name = "rule/evaluated" ∧ e.get? "rule" = some (.text rule.render) ∧
        e.get? "tuples.derived" = some (.int derived) ∧ e.get? "tuples.added" = some (.int added)
  | .joined left right result =>
      e.name = "join/hash" ∧ e.get? "left.attrs" = some (.texts left.attrs) ∧
        e.get? "left.size" = some (.int left.tuples) ∧
        e.get? "right.attrs" = some (.texts right.attrs) ∧
        e.get? "right.size" = some (.int right.tuples) ∧
        e.get? "result.attrs" = some (.texts result.attrs) ∧
        e.get? "result.size" = some (.int result.tuples)
  | .queryAnswered query tuples =>
      e.name = "query/answered" ∧ e.get? "query" = some (.text query.render) ∧
        e.get? "tuples.count" = some (.int tuples)
  | .complete (.failed fault) =>
      e.name = "evaluation/complete" ∧ e.get? "success" = some (.flag false) ∧
        e.get? "error" = some (.failure fault.message)
  | .complete (.succeeded passes tuples relations) =>
      e.name = "evaluation/complete" ∧ e.get? "success" = some (.flag true) ∧
        e.get? "passes.total" = some (.int passes) ∧
        e.get? "relations.count" = some (.int relations.length) ∧
        e.get? "tuples.count" = some (.int tuples) ∧
        e.get? "relations" = some (.relations relations)

theorem int_of_get? {e : Event} {key : Bytes} {n : Int} (h : e.get? key = some (.int n)) :
    e.int key = n := by
  rw [int, h]

end Event

namespace Milestone

/-- The keys of the data, whatever the values are. -/
theorem nodup_keys (m : Milestone) : (m.data.map (·.1)).Nodup := by
  cases m with
  | complete ending =>
      cases ending <;> (simp only [data, List.map]; decide)
  | _ => simp only [data, List.map]; decide

/-- Every value that is recorded is found under its key. -/
theorem get?_toEvent (m : Milestone) {key : Bytes} {value : Datum} (h : (key, value) ∈ m.data) :
    m.toEvent.get? key = some value := by
  obtain ⟨front, back, hdata⟩ := List.append_of_mem h
  have hkeys := m.nodup_keys
  rw [hdata, List.map_append, List.map_cons] at hkeys
  have hfresh : key ∉ front.map (·.1) := fun hmem =>
    (List.nodup_append.mp hkeys).2.2 key hmem key List.mem_cons_self rfl
  refine List.lookup_eq_some_iff.mpr ⟨front, back, hdata, fun field hfield => ?_⟩
  exact bne_iff_ne.mpr fun heq => hfresh (List.mem_map.mpr ⟨field, hfield, heq.symm⟩)

theorem toEvent_tellsOf (m : Milestone) : m.toEvent.TellsOf m := by
  have hdata : ∀ field ∈ m.data, m.toEvent.get? field.1 = some field.2 :=
    fun _ hfield => m.get?_toEvent hfield
  cases m with
  | complete ending =>
      cases ending <;>
      · simp only [data, count, List.forall_mem_cons, List.not_mem_nil, false_imp_iff,
          implies_true, and_true] at hdata
        exact ⟨rfl, hdata⟩
  | _ =>
      simp only [data, count, List.forall_mem_cons, List.not_mem_nil, false_imp_iff,
        implies_true, and_true] at hdata
      exact ⟨rfl, hdata⟩

/-- A word that is recorded is told of milestone by milestone. -/
theorem forall₂_tellsOf (word : List Milestone) :
    List.Forall₂ Event.TellsOf (word.map (·.toEvent)) word := by
  induction word with
  | nil => exact .nil
  | cons m word ih => exact .cons m.toEvent_tellsOf ih

end Milestone

end LeastModel
