import Mathlib.Data.BitVec

/-!
# Sliding replay windows

The highest sequence number accepted so far with a bitmap of the last `w` of them, bit `i`
standing for the number `i` below the highest. A number is refused when it has fallen out of
the window or its bit is set. Two facts are all that is used of it: what was committed is
refused ever after, and what is refused inside the window was committed.
-/

namespace VeilNetwork

open Bool BitVec

/-- A window over the last `w` numbers. -/
structure ReplayWindow (w : ℕ) where
  highest : ℕ
  bitmap : BitVec w
deriving DecidableEq

namespace ReplayWindow

variable {w : ℕ} (W : ReplayWindow w) {q r : ℕ}

/-- Nothing accepted yet. -/
def empty : ReplayWindow w := ⟨0, 0⟩

/-- The number is not above the highest, and it is out of the window or seen. -/
def refuses (q : ℕ) : Bool :=
  decide (q ≤ W.highest) &&
    (decide (w ≤ W.highest - q) || W.bitmap &&& (1#w <<< (W.highest - q)) != 0)

/-- Accept a number. -/
def commit (q : ℕ) : ReplayWindow w :=
  if W.highest < q then
    { highest := q
      bitmap := if w ≤ q - W.highest then 1 else (W.bitmap <<< (q - W.highest)) ||| 1 }
  else { W with bitmap := W.bitmap ||| (1#w <<< (W.highest - q)) }

/-- The bit of a number is set. -/
def Marked (q : ℕ) : Prop := q ≤ W.highest ∧ W.bitmap.getLsbD (W.highest - q)

theorem getLsbD_shiftLeft_one (i j : ℕ) :
    (1#w <<< i).getLsbD j = (decide (j < w) && decide (j = i)) := by
  by_cases hij : j = i
  · subst hij
    by_cases hj : j < w
    · simp [show 0 < w by omega]
    · simp [hj]
  · have : j < i ∨ j - i ≠ 0 := by omega
    rcases this with h | h <;> simp [h, hij]

theorem and_shiftLeft_one_ne_zero (b : BitVec w) (i : ℕ) :
    (b &&& (1#w <<< i) != 0) = b.getLsbD i := by
  rw [Bool.eq_iff_iff, bne_iff_ne]
  constructor
  · intro h
    by_contra hbit
    refine h (eq_of_getLsbD_eq fun j hj => ?_)
    rw [getLsbD_and, getLsbD_shiftLeft_one]
    by_cases hij : j = i
    · subst hij
      simp [eq_false_iff.mpr hbit]
    · simp [hij]
  · intro h hzero
    have hi := lt_of_getLsbD h
    have hbit : (b &&& (1#w <<< i)).getLsbD i = true := by
      rw [getLsbD_and, h]
      simp [hi]
    rw [hzero] at hbit
    simp at hbit

/-- **When a number is refused.** -/
theorem refuses_iff : W.refuses q ↔ q + w ≤ W.highest ∨ W.Marked q := by
  rw [refuses, and_shiftLeft_one_ne_zero, and_eq_true, or_eq_true, decide_eq_true_eq,
    decide_eq_true_eq]
  constructor
  · rintro ⟨hle, hout | hbit⟩
    · exact .inl (by omega)
    · exact .inr ⟨hle, hbit⟩
  · rintro (hout | ⟨hle, hbit⟩)
    · exact ⟨by omega, .inl (by omega)⟩
    · exact ⟨hle, .inr hbit⟩

/-- Bit `i` after accepting a number above the highest. -/
theorem getLsbD_commit_of_lt (h : W.highest < r) (i : ℕ) :
    (W.commit r).bitmap.getLsbD i ↔ (i = 0 ∧ 0 < w) ∨
      (r - W.highest ≤ i ∧ i < w ∧ W.bitmap.getLsbD (i - (r - W.highest))) := by
  rw [commit, if_pos h]
  split
  · simp only [ofNat_eq_ofNat, getLsbD_one, and_eq_true, decide_eq_true_eq]
    omega
  · simp only [ofNat_eq_ofNat, getLsbD_or, getLsbD_shiftLeft,
      getLsbD_one, or_eq_true, and_eq_true, not_eq_true',
      decide_eq_true_eq, decide_eq_false_iff_not]
    grind

/-- Bit `i` after accepting a number that is not above the highest. -/
theorem getLsbD_commit_of_le (h : r ≤ W.highest) (i : ℕ) :
    (W.commit r).bitmap.getLsbD i ↔
      W.bitmap.getLsbD i ∨ (i < w ∧ i = W.highest - r) := by
  rw [commit, if_neg (by omega)]
  simp only [getLsbD_or, getLsbD_shiftLeft_one, or_eq_true, and_eq_true,
    decide_eq_true_eq]

theorem highest_commit : (W.commit r).highest = max W.highest r := by
  unfold commit
  split <;> simp only <;> omega

/-- **Only what was accepted is marked.** -/
theorem marked_of_commit (h : (W.commit r).Marked q) : q = r ∨ W.Marked q := by
  obtain ⟨hle, hbit⟩ := h
  rw [highest_commit] at hle hbit
  rcases lt_or_ge W.highest r with hr | hr
  · rw [max_eq_right hr.le] at hle hbit
    rcases (W.getLsbD_commit_of_lt hr _).mp hbit with ⟨hzero, -⟩ | ⟨hsh, -, hold⟩
    · exact .inl (by omega)
    · refine .inr ⟨by omega, ?_⟩
      rwa [show r - q - (r - W.highest) = W.highest - q by omega] at hold
  · rw [max_eq_left hr] at hle hbit
    rcases (W.getLsbD_commit_of_le hr _).mp hbit with hold | ⟨-, heq⟩
    · exact .inr ⟨hle, hold⟩
    · exact .inl (by omega)

/-- **What was accepted is refused.** -/
theorem refuses_commit_self (hw : 0 < w) : (W.commit r).refuses r := by
  rw [refuses_iff, Marked, highest_commit]
  rcases lt_or_ge W.highest r with hr | hr
  · refine .inr ⟨by omega, (W.getLsbD_commit_of_lt hr _).mpr (.inl ⟨by omega, hw⟩)⟩
  · rw [max_eq_left hr]
    rcases lt_or_ge (W.highest - r) w with hin | hout
    · exact .inr ⟨hr, (W.getLsbD_commit_of_le hr _).mpr (.inr ⟨hin, rfl⟩)⟩
    · exact .inl (by omega)

/-- **What is refused stays refused.** -/
theorem refuses_commit (h : W.refuses q) : (W.commit r).refuses q := by
  rw [refuses_iff, Marked, highest_commit]
  rcases W.refuses_iff.mp h with hout | ⟨hle, hbit⟩
  · exact .inl (by omega)
  rcases lt_or_ge W.highest r with hr | hr
  · rw [max_eq_right hr.le]
    rcases lt_or_ge (r - q) w with hin | hout
    · refine .inr ⟨by omega, (W.getLsbD_commit_of_lt hr _).mpr (.inr ⟨by omega, hin, ?_⟩)⟩
      rwa [show r - q - (r - W.highest) = W.highest - q by omega]
    · exact .inl (by omega)
  · rw [max_eq_left hr]
    exact .inr ⟨hle, (W.getLsbD_commit_of_le hr _).mpr (.inl hbit)⟩

theorem not_marked_empty (q : ℕ) : ¬ (empty : ReplayWindow w).Marked q :=
  fun h => absurd h.2 (by simp [empty])

end ReplayWindow

end VeilNetwork
