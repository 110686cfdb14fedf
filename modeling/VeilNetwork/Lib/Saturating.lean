import Mathlib.Algebra.Group.Nat.Defs

/-!
# Saturating arithmetic

Additions and products that stop at the largest value of their type instead of
wrapping: on 32-bit words, and on 64-bit counters kept as naturals. Saturating
subtraction of naturals is the subtraction of naturals.
-/

namespace VeilNetwork.Saturating

/-- The largest 64-bit value. -/
def u64Max : ℕ := 2 ^ 64 - 1

/-- The largest 32-bit value. -/
def u32Max : UInt32 := 0xFFFFFFFF

/-- Saturating sum of 64-bit counters. -/
def add64 (a b : ℕ) : ℕ := min (a + b) u64Max

/-- Saturating product of 64-bit counters. -/
def mul64 (a b : ℕ) : ℕ := min (a * b) u64Max

variable (a b : UInt32)

/-- Saturating sum of 32-bit words. -/
def add32 : UInt32 := UInt32.ofNat (min (a.toNat + b.toNat) u32Max.toNat)

/-- Saturating difference of 32-bit words. -/
def sub32 : UInt32 := UInt32.ofNat (a.toNat - b.toNat)

/-- Saturating product of 32-bit words. -/
def mul32 : UInt32 := UInt32.ofNat (min (a.toNat * b.toNat) u32Max.toNat)

/-- A 64-bit value forced into `[lo, hi]`. -/
def clamp64 (a lo hi : ℕ) : ℕ := min (max a lo) hi

theorem toNat_sub32 : (sub32 a b).toNat = a.toNat - b.toNat := by
  have h := a.toNat_lt
  rw [sub32, UInt32.toNat_ofNat_of_lt']
  simp only [UInt32.size]
  omega

end VeilNetwork.Saturating
