import VeilNetwork.Lib.Serial

/-!
# Sequence numbers of the onion stream

The modular comparisons of `seq.rs`, and what they say about the byte positions behind the
sequence numbers. A sequence number is the 32-bit name of a position (`Serial`), and every
comparison the engine makes is between names of positions at most half the range apart; the lemmas
here turn each into the plain comparison of positions under exactly that condition.
-/

namespace VeilNetwork.OnionStream

open Serial

namespace Seq

section

variable (a b : UInt32)

/-- `a < b` in modular order. -/
def lt : Bool := decide ((a - b).toInt32 < 0)

/-- `a ≤ b` in modular order. -/
def leq : Bool := decide ((a - b).toInt32 ≤ 0)

/-- `a > b` in modular order. -/
def gt : Bool := lt b a

/-- `a ≥ b` in modular order. -/
def geq : Bool := leq b a

/-- The smaller of two sequence numbers in modular order. -/
def min : UInt32 := if lt a b then a else b

/-- The larger of two sequence numbers in modular order. -/
def max : UInt32 := if lt a b then b else a

end

example : lt 0xFFFFFFFB 5 = true := by decide

/-- What is later in modular order is at most half a range ahead. -/
theorem gt_iff {a b : UInt32} : gt a b = true ↔ 0 < (a - b).toNat ∧ (a - b).toNat ≤ 2 ^ 31 := by
  have ha := a.toNat_lt
  have hb := b.toNat_lt
  rw [gt, lt, decide_eq_true_eq, toInt32_neg_iff, UInt32.toNat_sub, UInt32.toNat_sub]
  omega

theorem leq_iff {a b : UInt32} : leq a b = true ↔ a = b ∨ lt a b = true := by
  rw [leq, lt, decide_eq_true_iff, decide_eq_true_iff, toInt32_nonpos_iff,
    toInt32_neg_iff, ← UInt32.toNat_zero, UInt32.toNat_inj, UInt32.sub_eq_iff_eq_add,
    UInt32.zero_add]

@[simp] theorem gt_self (a : UInt32) : gt a a = false := by
  rw [Bool.eq_false_iff, ne_eq, gt_iff, UInt32.sub_self]
  exact fun h => absurd h.1 (by decide)

/-! ### Comparisons of names are comparisons of positions -/

section Positions

variable {a b : ℕ}

theorem lt_ofNat (h : a < b + 2 ^ 31) (h' : b ≤ a + 2 ^ 31) :
    lt (UInt32.ofNat a) (UInt32.ofNat b) = decide (a < b) :=
  decide_eq_decide.mpr (sub_neg_iff h h')

theorem leq_ofNat (h : a < b + 2 ^ 31) (h' : b ≤ a + 2 ^ 31) :
    leq (UInt32.ofNat a) (UInt32.ofNat b) = decide (a ≤ b) :=
  decide_eq_decide.mpr (sub_nonpos_iff h h')

theorem min_ofNat (h : a < b + 2 ^ 31) (h' : b ≤ a + 2 ^ 31) :
    min (UInt32.ofNat a) (UInt32.ofNat b) = UInt32.ofNat (Min.min a b) := by
  rw [min, lt_ofNat h h']
  rcases Nat.lt_or_ge a b with hab | hab
  · rw [if_pos (by simpa using hab), Nat.min_eq_left (by omega)]
  · rw [if_neg (by simpa using hab), Nat.min_eq_right hab]

theorem max_ofNat (h : a < b + 2 ^ 31) (h' : b ≤ a + 2 ^ 31) :
    max (UInt32.ofNat a) (UInt32.ofNat b) = UInt32.ofNat (Max.max a b) := by
  rw [max, lt_ofNat h h']
  rcases Nat.lt_or_ge a b with hab | hab
  · rw [if_pos (by simpa using hab), Nat.max_eq_right (by omega)]
  · rw [if_neg (by simpa using hab), Nat.max_eq_left hab]

end Positions

end Seq

/-! ### Names of offsets

A stream is read as offsets from its first byte, whose name is `UInt32.ofNat base`. -/

/-- The sequence number of an offset. -/
def pos (base i : ℕ) : UInt32 := UInt32.ofNat (base + i)

section Names

variable {base i j n : ℕ}

theorem pos_sub (h : j ≤ i) (h' : i < j + 2 ^ 32) : (pos base i - pos base j).toNat = i - j := by
  rw [pos, pos, toNat_ofNat_sub (by omega) (by omega)]
  omega

theorem pos_add (base i n : ℕ) : pos base i + UInt32.ofNat n = pos base (i + n) := by
  rw [pos, pos, ← UInt32.ofNat_add, add_assoc]

theorem pos_inj (h : i < j + 2 ^ 32) (h' : j < i + 2 ^ 32) : pos base i = pos base j ↔ i = j := by
  rw [pos, pos, ofNat_inj (by omega) (by omega)]
  omega

theorem lt_pos (h : i < j + 2 ^ 31) (h' : j ≤ i + 2 ^ 31) :
    Seq.lt (pos base i) (pos base j) = decide (i < j) := by
  rw [pos, pos, Seq.lt_ofNat (by omega) (by omega), decide_eq_decide]
  omega

theorem leq_pos (h : i < j + 2 ^ 31) (h' : j ≤ i + 2 ^ 31) :
    Seq.leq (pos base i) (pos base j) = decide (i ≤ j) := by
  rw [pos, pos, Seq.leq_ofNat (by omega) (by omega), decide_eq_decide]
  omega

theorem gt_pos (h : j < i + 2 ^ 31) (h' : i ≤ j + 2 ^ 31) :
    Seq.gt (pos base i) (pos base j) = decide (j < i) := lt_pos h h'

theorem geq_pos (h : j < i + 2 ^ 31) (h' : i ≤ j + 2 ^ 31) :
    Seq.geq (pos base i) (pos base j) = decide (j ≤ i) := leq_pos h h'

theorem max_pos (h : i < j + 2 ^ 31) (h' : j ≤ i + 2 ^ 31) :
    Seq.max (pos base i) (pos base j) = pos base (max i j) := by
  rw [pos, pos, Seq.max_ofNat (by omega) (by omega)]
  congr 1
  omega

theorem min_pos (h : i < j + 2 ^ 31) (h' : j ≤ i + 2 ^ 31) :
    Seq.min (pos base i) (pos base j) = pos base (min i j) := by
  rw [pos, pos, Seq.min_ofNat (by omega) (by omega)]
  congr 1
  omega

/-- Every sequence number is the name of an offset at or after a given one. -/
theorem eq_pos_add (x : UInt32) (base n : ℕ) : x = pos base (n + (x - pos base n).toNat) := by
  rw [pos, ← add_assoc]
  exact eq_ofNat_add x (base + n)

end Names

end VeilNetwork.OnionStream
