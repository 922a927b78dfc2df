import LeastModel.Text.Utf8

/-!
# Texts that show where they end

Things are written one after another, with nothing between them that could not
stand inside of them. They can be told apart nevertheless when every text shows
where it ends. Then it is no beginning of another one, and texts made of such
parts show where they end as well.
-/

namespace LeastModel

/-- The texts of the things in `P` show where they end: a text that starts with
one of them starts with no other, and what stands behind it is determined. -/
def Delimits {α : Type} (P : α → Prop) (text : α → Bytes) : Prop :=
  ∀ ⦃a b⦄, P a → P b → ∀ ⦃rest more⦄, text a ++ rest = text b ++ more → a = b ∧ rest = more

namespace Delimits

variable {α : Type} {P : α → Prop} {text : α → Bytes}

/-- Fewer things are told apart all the more. -/
theorem imp {Q : α → Prop} (h : Delimits P text) (hQ : ∀ a, Q a → P a) : Delimits Q text :=
  fun _ _ ha hb _ _ heq => h (hQ _ ha) (hQ _ hb) heq

/-- The same front does no harm. -/
theorem prepend (h : Delimits P text) (front : Bytes) : Delimits P fun a => front ++ text a := by
  intro a b ha hb rest more heq
  simp only [List.append_assoc, List.append_cancel_left_eq] at heq
  exact h ha hb heq

/-- The same end does no harm. -/
theorem append (h : Delimits P text) (back : Bytes) : Delimits P fun a => text a ++ back := by
  intro a b ha hb rest more heq
  simp only [List.append_assoc] at heq
  obtain ⟨rfl, hrest⟩ := h ha hb heq
  exact ⟨rfl, List.append_cancel_left hrest⟩

/-- A text in two parts, the first of which says how the second is to be read. -/
theorem andThen {β : Type} {Q : β → Prop} {first : β → Bytes} {f : α → β}
    (hfirst : Delimits Q first) (hf : ∀ a, P a → Q (f a))
    (htext : ∀ x, Delimits (fun a => P a ∧ f a = x) text) :
    Delimits P fun a => first (f a) ++ text a := by
  intro a b ha hb rest more heq
  simp only [List.append_assoc] at heq
  obtain ⟨hab, htail⟩ := hfirst (hf a ha) (hf b hb) heq
  exact htext (f b) ⟨ha, hab⟩ ⟨hb, rfl⟩ htail

/-- Texts one after another are told apart once their number is known. -/
theorem flatMap (h : Delimits P text) (n : Nat) :
    Delimits (fun as : List α => (∀ a ∈ as, P a) ∧ as.length = n) (·.flatMap text) := by
  rintro as bs ⟨has, rfl⟩ ⟨hbs, hlength⟩ rest more heq
  induction as generalizing bs with
  | nil =>
      obtain rfl := List.length_eq_zero_iff.mp hlength
      exact ⟨rfl, heq⟩
  | cons a as ih =>
      match bs with
      | b :: bs =>
          simp only [List.flatMap_cons, List.append_assoc] at heq
          obtain ⟨rfl, htail⟩ := h (has a List.mem_cons_self) (hbs b List.mem_cons_self) heq
          obtain ⟨rfl, hrest⟩ := ih (fun x hx => has x (List.mem_cons_of_mem a hx))
            (fun x hx => hbs x (List.mem_cons_of_mem a hx)) (Nat.succ.inj hlength) htail
          exact ⟨rfl, hrest⟩

end Delimits

/-- Byte strings of one length end where this length is reached. -/
theorem delimits_ofLength (n : Nat) : Delimits (fun bs : Bytes => bs.length = n) fun bs => bs :=
  fun _ _ has hbs _ _ heq => List.append_inj heq (has.trans hbs.symm)

end LeastModel
