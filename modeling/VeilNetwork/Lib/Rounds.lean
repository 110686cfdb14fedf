import Mathlib.Algebra.BigOperators.Group.Finset.Piecewise
import Mathlib.Algebra.Order.BigOperators.Group.Finset
import Mathlib.Algebra.Ring.Nat

/-!
# Weighted rounds

In a weighted round robin every class has as many slots as its weight. Serving a class takes
one of its slots, and a reset gives every class all of its slots again. `Spends` relates the
slots before and after a list of such events; a condition on the slots says when a reset may
be made.

Between two resets no class is served more often than its weight (`Spends.count_le`). If the
rounds are reset only when some class has used all its slots, then the others cannot be served
twice their weights without that class being served (`Spends.served_le`).
-/

namespace VeilNetwork.Rounds

open List Function Finset

variable {ι : Type*}

inductive Event (ι : Type*) where
  | served (q : ι)
  | reset
deriving DecidableEq

variable [DecidableEq ι]

/-- The slots after a list of events. -/
inductive Spends (w : ι → ℕ) (C : (ι → ℕ) → Prop) : (ι → ℕ) → List (Event ι) → (ι → ℕ) → Prop
  | nil (a : ι → ℕ) : Spends w C a [] a
  | serve {a b : ι → ℕ} {q : ι} {l : List (Event ι)} (hslot : 0 < a q)
      (h : Spends w C (Function.update a q (a q - 1)) l b) : Spends w C a (.served q :: l) b
  | reset {a b : ι → ℕ} {l : List (Event ι)} (hreset : C a) (h : Spends w C w l b) :
      Spends w C a (.reset :: l) b

namespace Spends

variable {w a b c : ι → ℕ} {C : (ι → ℕ) → Prop} {l l' : List (Event ι)}

theorem append (h : Spends w C a l b) (h' : Spends w C b l' c) : Spends w C a (l ++ l') c := by
  induction h with
  | nil a => exact h'
  | serve hslot _ ih => exact .serve hslot (ih h')
  | reset hreset _ ih => exact .reset hreset (ih h')

/-- There are slots at every point of a list of events. -/
theorem of_append (h : Spends w C a (l ++ l') c) :
    ∃ b, Spends w C a l b ∧ Spends w C b l' c := by
  induction l generalizing a with
  | nil => exact ⟨a, .nil a, h⟩
  | cons e l ih =>
    cases h with
    | serve hslot h =>
      obtain ⟨b, hl, hl'⟩ := ih h
      exact ⟨b, .serve hslot hl, hl'⟩
    | reset hreset h =>
      obtain ⟨b, hl, hl'⟩ := ih h
      exact ⟨b, .reset hreset hl, hl'⟩

/-- No class ever has more slots than its weight. -/
theorem le (h : Spends w C a l b) (ha : a ≤ w) : b ≤ w := by
  induction h with
  | nil a => exact ha
  | @serve a b q l hslot _ ih =>
    refine ih fun q' => ?_
    rcases eq_or_ne q' q with rfl | hne
    · rw [update_self]
      exact (Nat.sub_le _ _).trans (ha q')
    · rw [update_of_ne hne]
      exact ha q'
  | reset _ _ ih => exact ih le_rfl

/-- **Within a round** a class is served from the slots it has. -/
theorem count_le (h : Spends w C a l b) (hround : Event.reset ∉ l) (q : ι) :
    l.count (.served q) ≤ a q := by
  induction h with
  | nil => exact Nat.zero_le ..
  | @serve a b q' l hslot _ ih =>
    have hrest := ih fun hmem => hround (mem_cons_of_mem _ hmem)
    rcases eq_or_ne q' q with rfl | hne
    · rw [update_self] at hrest
      rw [count_cons_self]
      omega
    · rw [update_of_ne hne.symm] at hrest
      rwa [count_cons_of_ne fun heq => hne (Event.served.inj heq)]
  | reset _ _ _ => exact absurd List.mem_cons_self hround

/-- Between two resets a class is served at most as often as its weight says. -/
theorem count_le_weight {mid : List (Event ι)} (h : Spends w C a (l ++ .reset :: (mid ++ l')) b)
    (hround : Event.reset ∉ mid) (q : ι) : mid.count (.served q) ≤ w q := by
  obtain ⟨c, -, hreset⟩ := h.of_append
  cases hreset with
  | reset _ hmid =>
    obtain ⟨d, hmid, -⟩ := hmid.of_append
    exact hmid.count_le hround q

section Waiting

variable [Fintype ι] (p : ι)

/-- The slots of the other classes. -/
def others (a : ι → ℕ) : ℕ := ∑ q ∈ Finset.univ.erase p, a q

/-- How often others can still be served before the class is: from the slots they have, and
once more from all of theirs if the class has none left. -/
def patience (w a : ι → ℕ) : ℕ := others p a + if a p = 0 then others p w else 0

variable {p}

theorem others_serve {q : ι} (hne : q ≠ p) (hslot : 0 < a q) :
    others p (Function.update a q (a q - 1)) + 1 = others p a := by
  have hq : q ∈ univ.erase p := mem_erase.mpr ⟨hne, mem_univ q⟩
  rw [others, others, sum_update_of_mem hq, ← add_sum_erase _ a hq,
    sdiff_singleton_eq_erase]
  omega

/-- **A class that is not served uses up the others' patience.** -/
theorem add_patience_le (h : Spends w (fun a => a p = 0) a l b) (hp : 0 < w p)
    (hwaits : Event.served p ∉ l) :
    l.countP (· ≠ .reset) + patience p w b ≤ patience p w a := by
  induction h with
  | nil a => rw [countP_nil, zero_add]
  | @serve a b q l hslot _ ih =>
    have hne : q ≠ p := fun heq => hwaits (heq ▸ mem_cons_self)
    have hrest := ih fun hmem => hwaits (mem_cons_of_mem _ hmem)
    have hslots := others_serve hne hslot
    rw [patience, patience, update_of_ne hne.symm] at hrest
    rw [patience, patience, countP_cons_of_pos (by simp)]
    omega
  | @reset a b l hreset _ ih =>
    have hrest := ih fun hmem => hwaits (mem_cons_of_mem _ hmem)
    rw [patience, patience, if_neg hp.ne'] at hrest
    rw [patience, patience, if_pos hreset, countP_cons_of_neg (by simp)]
    omega

/-- **Others are served at most twice their weights** while a class with a slot in every round
waits, if no round is reset before that class has used its slots. -/
theorem served_le (h : Spends w (fun a => a p = 0) a l b) (ha : a ≤ w) (hp : 0 < w p)
    (hwaits : Event.served p ∉ l) :
    l.countP (· ≠ .reset) ≤ 2 * (∑ q, w q - w p) := by
  have hle := h.add_patience_le hp hwaits
  have hothers : others p w = ∑ q, w q - w p := by
    rw [others, ← add_sum_erase _ w (mem_univ p), Nat.add_sub_cancel_left]
  have hslots : others p a ≤ others p w := sum_le_sum fun q _ => ha q
  have hpatience : patience p w a ≤ 2 * others p w := by
    rw [patience]
    split <;> omega
  rw [← hothers]
  omega

end Waiting

end Spends

end VeilNetwork.Rounds
