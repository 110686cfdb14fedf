import Mathlib.Algebra.Group.Nat.Defs
import Mathlib.Order.Defs.LinearOrder

/-!
# Positions of a stream and their 32-bit names

A byte stream has positions `0, 1, 2, …` without end, and a header has 32 bits to
name one. The name of position `n` is `UInt32.ofNat n`, so two positions share a
name when they are `2 ^ 32` apart, and which of two names comes first is a
question about the *sign* of their wrapped difference. The answer is the order of
the positions as long as these are less than half the range apart; this file says
so once, in the four shapes a comparison of names takes, and everything else
about a wrapping counter is then arithmetic of natural numbers.

The last section orders the machine words by value, which is what a search tree
keyed by them iterates in.
-/

namespace VeilNetwork

open UInt32

namespace Serial

/-! ### Distances between names -/

variable {a b : ℕ}

/-- The wrapped distance between two names is the distance between their
positions, when the second is not the later one. -/
theorem toNat_ofNat_sub (h : b ≤ a) (h' : a < b + 2 ^ 32) :
    (UInt32.ofNat a - UInt32.ofNat b).toNat = a - b := by
  rw [UInt32.toNat_sub, UInt32.toNat_ofNat', UInt32.toNat_ofNat']
  omega

/-- The wrapped distance backwards over a positive number of positions. -/
theorem toNat_ofNat_sub_of_lt (h : a < b) (h' : b ≤ a + 2 ^ 32) :
    (UInt32.ofNat a - UInt32.ofNat b).toNat = 2 ^ 32 - (b - a) := by
  rw [UInt32.toNat_sub, UInt32.toNat_ofNat', UInt32.toNat_ofNat']
  omega

variable (x : UInt32)

/-- **Every name is a position at or after a given one**, namely the one at the
wrapped distance. A value read off the wire is handled through this. -/
theorem eq_ofNat_add (n : ℕ) : x = UInt32.ofNat (n + (x - UInt32.ofNat n).toNat) := by
  have hc : ofNat (x - ofNat n).toNat = x - ofNat n := by simp
  rw [UInt32.ofNat_add, hc, UInt32.add_comm, UInt32.sub_add_cancel]

/-- Names tell positions less than a full turn apart from each other. -/
theorem ofNat_inj (h : a < b + 2 ^ 32) (h' : b < a + 2 ^ 32) :
    UInt32.ofNat a = UInt32.ofNat b ↔ a = b := by
  constructor
  · intro he
    have := congrArg toNat he
    rw [toNat_ofNat', toNat_ofNat'] at this
    omega
  · rintro rfl
    rfl

/-! ### The sign of a wrapped difference -/

/-- Reading a word as signed is taking its balanced remainder. -/
theorem toInt_toInt32 : x.toInt32.toInt = (x.toNat : ℤ).bmod (2 ^ 32) := by
  rw [Int32.toInt, BitVec.toInt_eq_toNat_bmod]
  rfl

/-- A word is negative from the middle of the range on. -/
theorem toInt32_neg_iff : x.toInt32 < 0 ↔ 2 ^ 31 ≤ x.toNat := by
  rw [Int32.lt_iff_toInt_lt, Int32.toInt_zero, toInt_toInt32]
  have hx := x.toNat_lt
  simp only [Int.bmod]
  split <;> omega

theorem toInt32_nonpos_iff : x.toInt32 ≤ 0 ↔ x.toNat = 0 ∨ 2 ^ 31 ≤ x.toNat := by
  rw [Int32.le_iff_toInt_le, Int32.toInt_zero, toInt_toInt32]
  have hx := x.toNat_lt
  simp only [Int.bmod]
  split <;> omega

/-- **A strict comparison of names is the comparison of positions**, for positions
at most half the range apart. -/
theorem sub_neg_iff (h : a < b + 2 ^ 31) (h' : b ≤ a + 2 ^ 31) :
    (UInt32.ofNat a - UInt32.ofNat b).toInt32 < 0 ↔ a < b := by
  rw [toInt32_neg_iff]
  rcases Nat.lt_or_ge a b with hab | hab
  · rw [toNat_ofNat_sub_of_lt hab (by omega)]
    omega
  · rw [toNat_ofNat_sub hab (by omega)]
    omega

/-- **A weak comparison of names is the comparison of positions**, for positions
at most half the range apart. -/
theorem sub_nonpos_iff (h : a < b + 2 ^ 31) (h' : b ≤ a + 2 ^ 31) :
    (UInt32.ofNat a - UInt32.ofNat b).toInt32 ≤ 0 ↔ a ≤ b := by
  rw [toInt32_nonpos_iff]
  rcases Nat.lt_or_ge a b with hab | hab
  · rw [toNat_ofNat_sub_of_lt hab (by omega)]
    omega
  · rw [toNat_ofNat_sub hab (by omega)]
    omega

end Serial

/-! ### Machine words in the order of their values -/

section Words

/-- The 32-bit words in the order of their values. -/
instance instLinearOrderUInt32 : LinearOrder UInt32 where
  le_refl := UInt32.le_refl
  le_trans _ _ _ := UInt32.le_trans
  lt_iff_le_not_ge a b := by rw [UInt32.not_le]; exact ⟨fun h => ⟨UInt32.le_of_lt h, h⟩, And.right⟩
  le_antisymm _ _ := UInt32.le_antisymm
  le_total := UInt32.le_total
  toDecidableLE := inferInstance
  toDecidableEq := inferInstance
  toDecidableLT := inferInstance
  min_def _ _ := rfl
  max_def _ _ := rfl

end Words

end VeilNetwork
