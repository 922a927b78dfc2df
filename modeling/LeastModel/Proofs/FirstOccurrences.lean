import Mathlib.Data.List.Induction
import Mathlib.Data.List.Nodup

/-!
# Lists of first occurrences

Attributes, variables and tuples are all kept in the order in which they are
first met. `List.eraseDups` is that order; these lemmas say when it changes
nothing and what one more element does to it.
-/

namespace LeastModel.FirstOccurrences

variable {α : Type} [BEq α] [LawfulBEq α]

theorem eraseDups_eq_self {xs : List α} (h : xs.Nodup) : xs.eraseDups = xs := by
  induction xs with
  | nil => rfl
  | cons x xs ih =>
      obtain ⟨hx, hxs⟩ := List.nodup_cons.mp h
      have hkeep : xs.filter (fun y => !y == x) = xs := by
        apply List.filter_eq_self.mpr
        intro y hy
        have hne : y ≠ x := fun hyx => hx (hyx ▸ hy)
        simpa using hne
      rw [List.eraseDups_cons, hkeep, ih hxs]

theorem eraseDups_concat (xs : List α) (x : α) :
    (xs ++ [x]).eraseDups = if x ∈ xs then xs.eraseDups else xs.eraseDups ++ [x] := by
  rw [List.eraseDups_append, List.removeAll]
  split
  · rename_i hx
    rw [List.filter_cons_of_neg (by simpa using hx)]
    simp
  · rename_i hx
    rw [List.filter_cons_of_pos (by simpa using hx)]
    simp [List.eraseDups_cons]

theorem nodup_eraseDups (xs : List α) : xs.eraseDups.Nodup := by
  induction xs using List.reverseRecOn with
  | nil => exact List.nodup_nil
  | append_singleton xs x ih =>
      rw [eraseDups_concat]
      split
      · exact ih
      · rename_i hx
        refine ih.append (List.nodup_singleton x) ?_
        intro y hy hyx
        rw [List.mem_singleton.mp hyx, List.mem_eraseDups] at hy
        exact hx hy

end LeastModel.FirstOccurrences
