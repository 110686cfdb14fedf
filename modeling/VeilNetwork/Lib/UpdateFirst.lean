import Mathlib.Data.List.Basic

/-!
# Updating the first element that qualifies

The effect on a queue of finding the first element with a property and changing it
in place. A change that keeps a view of the element keeps that view of the queue.
-/

namespace VeilNetwork.Queue

open List

variable {α β : Type*}

/-- Apply `f` to the first element satisfying `p`, if any. -/
def updateFirst (p : α → Bool) (f : α → α) : List α → List α
  | [] => []
  | a :: l => if p a then f a :: l else a :: updateFirst p f l

variable {p : α → Bool} {f : α → α} {l : List α}

/-- **A view the change keeps is kept on the whole queue.** -/
theorem map_updateFirst {g : α → β} (h : ∀ a, p a = true → g (f a) = g a) (l : List α) :
    (updateFirst p f l).map g = l.map g := by
  induction l with
  | nil => rfl
  | cons a l ih =>
    rw [updateFirst]
    split
    next ha => rw [map_cons, map_cons, h a ha]
    · rw [map_cons, map_cons, ih]

variable (p f l) in
/-- Nothing changes, or one element in its place. -/
theorem updateFirst_cases :
    updateFirst p f l = l ∨
      ∃ l₁ a l₂, l = l₁ ++ a :: l₂ ∧ updateFirst p f l = l₁ ++ f a :: l₂ := by
  induction l with
  | nil => exact .inl rfl
  | cons a l ih =>
    rw [updateFirst]
    split
    · exact .inr ⟨[], a, l, rfl, rfl⟩
    · rcases ih with ih | ⟨l₁, b, l₂, hl, ih⟩
      · exact .inl (congrArg (a :: ·) ih)
      · exact .inr ⟨a :: l₁, b, l₂, congrArg (a :: ·) hl, congrArg (a :: ·) ih⟩

theorem mem_updateFirst {x : α} (h : x ∈ updateFirst p f l) : x ∈ l ∨ ∃ a ∈ l, x = f a := by
  induction l with
  | nil => exact .inl h
  | cons a l ih =>
    rw [updateFirst] at h
    split at h
    · rcases mem_cons.mp h with rfl | h
      · exact .inr ⟨a, mem_cons_self, rfl⟩
      · exact .inl (mem_cons_of_mem _ h)
    · rcases mem_cons.mp h with rfl | h
      · exact .inl mem_cons_self
      · rcases ih h with h | ⟨b, hb, rfl⟩
        · exact .inl (mem_cons_of_mem _ h)
        · exact .inr ⟨b, mem_cons_of_mem _ hb, rfl⟩

/-- The element that was changed is the first that qualifies, as long as it still does. -/
theorem find?_updateFirst (h : ∀ a, p a = true → p (f a) = true) :
    (updateFirst p f l).find? p = (l.find? p).map f := by
  induction l with
  | nil => rfl
  | cons a l ih =>
    rw [updateFirst]
    split
    next ha => rw [find?_cons_of_pos (h a ha), find?_cons_of_pos ha, Option.map_some]
    next ha => rw [find?_cons_of_neg ha, find?_cons_of_neg ha, ih]

/-- The change does not show where neither the old nor the new element does. -/
theorem find?_updateFirst_of_not {q : α → Bool}
    (h : ∀ a, p a = true → q a = false ∧ q (f a) = false) :
    (updateFirst p f l).find? q = l.find? q := by
  induction l with
  | nil => rfl
  | cons a l ih =>
    rw [updateFirst]
    split
    next ha =>
      rw [find?_cons_of_neg (Bool.not_eq_true _ ▸ (h a ha).2),
        find?_cons_of_neg (Bool.not_eq_true _ ▸ (h a ha).1)]
    · rw [find?_cons, find?_cons, ih]

end VeilNetwork.Queue
