import Mathlib.Data.Nat.Bitwise
import Mathlib.Tactic.Ring

/-!
# Binary trees of derived keys

A tree of height `H` whose root carries a key and in which every node's key is
derived from its parent's, one way for each of the two children. A node is named by
its depth and by any leaf below it: the path to it is the top `depth` bits of that
leaf's index.

The nodes of interest are subtrees standing for the leaves below them, a dyadic
interval. What a proof about a set of such subtrees needs is how a subtree splits
into the two halves of its interval, for the keys (`nodeKey_left`, `nodeKey_right`)
and for the intervals (`Aligned.left`, `Aligned.right`).
-/

namespace VeilNetwork.KeyTree

open Nat

variable {K : Type*} (child : K → Bool → K) (H : ℕ) (root : K)

/-- The key of the node at a depth above leaf `i`. -/
def nodeKey : ℕ → ℕ → K
  | 0, _ => root
  | d + 1, i => child (nodeKey d i) (i.testBit (H - (d + 1)))

/-- The key of leaf `i`. -/
def leafKey (i : ℕ) : K := nodeKey child H root H i

/-- A subtree of height `h` starts at a multiple of its size and lies in the tree. -/
structure Aligned (s h : ℕ) : Prop where
  dvd : 2 ^ h ∣ s
  le : s + 2 ^ h ≤ 2 ^ H

variable {child H root} {d h i j s : ℕ}

/-- A node's key depends on the subtree, not on the leaf that names it. -/
theorem nodeKey_congr (hd : d ≤ H) (hij : i / 2 ^ (H - d) = j / 2 ^ (H - d)) :
    nodeKey child H root d i = nodeKey child H root d j := by
  induction d with
  | zero => rfl
  | succ d ih =>
    have hup : i / 2 ^ (H - d) = j / 2 ^ (H - d) := by
      rw [show H - d = H - (d + 1) + 1 by omega, pow_succ, ← Nat.div_div_eq_div_mul,
        ← Nat.div_div_eq_div_mul, hij]
    have hbit : i.testBit (H - (d + 1)) = j.testBit (H - (d + 1)) := by
      rw [testBit_eq_decide_div_mod_eq, testBit_eq_decide_div_mod_eq, hij]
    rw [nodeKey, nodeKey, ih (by omega) hup, hbit]

namespace Aligned

section

variable (hs : Aligned H s (h + 1))

include hs

/-- The start of a subtree one level up has a clear bit there. -/
theorem testBit : s.testBit h = false := by
  obtain ⟨q, rfl⟩ := hs.dvd
  rw [testBit_eq_decide_div_mod_eq, pow_succ, mul_assoc,
    Nat.mul_div_cancel_left _ (Nat.two_pow_pos h), decide_eq_false_iff_not]
  omega

theorem testBit_add : (s + 2 ^ h).testBit h = true := by
  obtain ⟨q, rfl⟩ := hs.dvd
  rw [testBit_eq_decide_div_mod_eq, pow_succ, mul_assoc, ← mul_succ,
    Nat.mul_div_cancel_left _ (Nat.two_pow_pos h), decide_eq_true_eq]
  omega

/-- The lower half. -/
theorem left : Aligned H s h := by
  have hpow := two_pow_succ h
  have hle := hs.le
  have hpos := Nat.two_pow_pos h
  rw [hpow] at hle
  exact ⟨(pow_dvd_pow 2 (le_succ h)).trans hs.dvd, by omega⟩

/-- The upper half. -/
theorem right : Aligned H (s + 2 ^ h) h := by
  have hpow := two_pow_succ h
  have hle := hs.le
  rw [hpow] at hle
  exact ⟨Nat.dvd_add hs.left.dvd (Nat.dvd_refl _), by omega⟩

/-- The bit of an index below the subtree says which half it is in. -/
theorem testBit_iff (hle : s ≤ i) (hlt : i < s + 2 ^ (h + 1)) :
    i.testBit h = true ↔ s + 2 ^ h ≤ i := by
  have hpow := two_pow_succ h
  have hpos := Nat.two_pow_pos h
  obtain ⟨q, rfl⟩ := hs.dvd
  have hsplit : 2 ^ (h + 1) * q = 2 ^ h * (2 * q) := by ring
  rw [hsplit] at hle hlt ⊢
  rw [hpow] at hlt
  obtain ⟨r, rfl⟩ := Nat.exists_eq_add_of_le hle
  rw [testBit_eq_decide_div_mod_eq, decide_eq_true_eq, mul_add_div hpos]
  rcases lt_or_ge r (2 ^ h) with hr | hr
  · rw [div_eq_of_lt hr]
    omega
  · have hone : r / 2 ^ h = 1 := Nat.div_eq_of_lt_le (by omega) (by omega)
    rw [hone]
    omega

end

end Aligned

/-- The key of the lower half. -/
theorem nodeKey_left (hd : d + 1 ≤ H) (hs : Aligned H s (H - d)) :
    nodeKey child H root (d + 1) s = child (nodeKey child H root d s) false := by
  have hs' : Aligned H s (H - (d + 1) + 1) := by
    rwa [show H - (d + 1) + 1 = H - d by omega]
  rw [nodeKey, hs'.testBit]

/-- The key of the upper half. -/
theorem nodeKey_right (hd : d + 1 ≤ H) (hs : Aligned H s (H - d)) :
    nodeKey child H root (d + 1) (s + 2 ^ (H - (d + 1))) =
      child (nodeKey child H root d s) true := by
  have hh : H - (d + 1) + 1 = H - d := by omega
  have hs' : Aligned H s (H - (d + 1) + 1) := by
    rwa [hh]
  rw [nodeKey, hs'.testBit_add]
  congr 1
  refine nodeKey_congr (by omega) ?_
  obtain ⟨q, rfl⟩ := hs.dvd
  have hlt : 2 ^ (H - (d + 1)) < 2 ^ (H - d) := Nat.pow_lt_pow_right (by decide) (by omega)
  rw [Nat.mul_add_div (Nat.two_pow_pos _), Nat.div_eq_of_lt hlt, add_zero,
    Nat.mul_div_cancel_left _ (Nat.two_pow_pos _)]

end VeilNetwork.KeyTree
