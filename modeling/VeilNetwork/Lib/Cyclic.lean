import Mathlib.Data.List.Perm.Basic
import VeilNetwork.Lib.OrdMap
import VeilNetwork.Lib.Serial

/-!
# Ordered maps read around the circle

A map keyed by 32-bit words, iterated from a point upwards and, past the largest word, on from
zero: the order of the distance `k - r` from the point `r`. Iteration from a point is
`OrdMap.cyclic`; it is the only listing of the entries in that order (`OrdMap.cyclic_eq`), and the
lookups a program makes with two ranges of the raw order are its head, its last element and a
filter of it.
-/

namespace VeilNetwork.OrdMap

open List UInt32

variable {α : Type} {m : OrdMap UInt32 α} {r k : UInt32} {l : List (UInt32 × α)}

/-- The entries from `r` upwards, then the entries below `r`. -/
def cyclic (m : OrdMap UInt32 α) (r : UInt32) : List (UInt32 × α) := m.rangeFrom r ++ m.rangeTo r

/-! ### Distances around the circle -/

theorem dist_of_le (h : r ≤ k) : (k - r).toNat = k.toNat - r.toNat := UInt32.toNat_sub_of_le k r h

theorem dist_of_lt (h : k < r) : (k - r).toNat = k.toNat + 2 ^ 32 - r.toNat := by
  have hk := lt_iff_toNat_lt.mp h
  have hr := r.toNat_lt
  rw [UInt32.toNat_sub, Nat.mod_eq_of_lt (by omega)]
  omega

theorem le_of_mem_rangeFrom {e : UInt32 × α} (h : e ∈ m.rangeFrom r) : r ≤ e.1 := by
  simpa using (mem_filter.mp h).2

theorem lt_of_mem_rangeTo {e : UInt32 × α} (h : e ∈ m.rangeTo r) : e.1 < r := by
  simpa using (mem_filter.mp h).2

/-! ### The listing from a point -/

variable (m r) in
theorem cyclic_perm : (m.cyclic r).Perm m.entries := by
  have h : m.rangeTo r = m.entries.filter fun e => !decide (r ≤ e.1) := by
    refine filter_congr fun e _ => ?_
    rw [← decide_not, decide_eq_decide, not_le]
  rw [cyclic, h]
  exact filter_append_perm _ _

variable (m r) in
/-- The listing is in the order of the distance from its point. -/
theorem cyclic_sorted :
    (m.cyclic r).Pairwise fun a b => (a.1 - r).toNat < (b.1 - r).toNat := by
  refine pairwise_append.mpr ⟨?_, ?_, ?_⟩
  · refine (m.sorted.filter _).imp_of_mem fun {a b} ha hb hab => ?_
    have hab := lt_iff_toNat_lt.mp hab
    have har := le_iff_toNat_le.mp (le_of_mem_rangeFrom ha)
    rw [dist_of_le (le_of_mem_rangeFrom ha), dist_of_le (le_of_mem_rangeFrom hb)]
    omega
  · refine (m.sorted.filter _).imp_of_mem fun {a b} ha hb hab => ?_
    have hab := lt_iff_toNat_lt.mp hab
    have har := r.toNat_lt
    rw [dist_of_lt (lt_of_mem_rangeTo ha), dist_of_lt (lt_of_mem_rangeTo hb)]
    omega
  · intro a ha b hb
    have hal := a.1.toNat_lt
    have hrl := r.toNat_lt
    rw [dist_of_le (le_of_mem_rangeFrom ha), dist_of_lt (lt_of_mem_rangeTo hb)]
    omega

/-- **There is only one listing** of the entries in the order from a point. -/
theorem cyclic_eq (hperm : l.Perm m.entries)
    (hsorted : l.Pairwise fun a b => (a.1 - r).toNat < (b.1 - r).toNat) : m.cyclic r = l :=
  ((m.cyclic_perm r).trans hperm.symm).eq_of_pairwise
    (fun a b _ _ h h' => absurd h' (by omega)) (m.cyclic_sorted r) hsorted

/-! ### Lookups -/

theorem rangeTo_eq_entries (h : m.rangeFrom r = []) : m.rangeTo r = m.entries := by
  refine filter_eq_self.mpr fun e he => ?_
  have hne : e ∉ m.rangeFrom r := by simp [h]
  simpa [rangeFrom, he] using hne

theorem rangeFrom_eq_entries (h : m.rangeTo r = []) : m.rangeFrom r = m.entries := by
  refine filter_eq_self.mpr fun e he => ?_
  have hne : e ∉ m.rangeTo r := by simp [h]
  simpa [rangeTo, he] using hne

/-- The first entry from a point on, wrapping to the first of all. -/
theorem head?_rangeFrom_or_first? : (m.rangeFrom r).head?.or m.first? = (m.cyclic r).head? := by
  rw [cyclic, head?_append]
  cases h : m.rangeFrom r with
  | nil => rw [rangeTo_eq_entries h, first?]
  | cons a l => rfl

/-- The last entry before a point, wrapping to the last of all. -/
theorem getLast?_rangeTo_or_last? :
    (m.rangeTo r).getLast?.or m.last? = (m.cyclic r).getLast? := by
  rw [cyclic, getLast?_append]
  cases h : m.rangeTo r with
  | nil => rw [rangeFrom_eq_entries h, last?]
  | cons a l => rw [getLast?_cons, Option.some_or, Option.some_or]

/-- **The entries of an arc**, taken in one range or, across zero, in two. -/
theorem arc_eq_filter {n : ℕ} (hn : 0 < n) (hn' : n < 2 ^ 32) :
    (if r < r + UInt32.ofNat n then m.range r (r + UInt32.ofNat n)
      else m.rangeFrom r ++ m.rangeTo (r + UInt32.ofNat n)) =
      (m.cyclic r).filter fun e => decide ((e.1 - r).toNat < n) := by
  have hr := r.toNat_lt
  have hsum : (r + ofNat n).toNat = (r.toNat + n) % 2 ^ 32 := by
    rw [UInt32.toNat_add, UInt32.toNat_ofNat_of_lt' (by simpa [UInt32.size] using hn')]
  simp only [cyclic, filter_append, rangeFrom, rangeTo, filter_filter]
  split
  next hlt =>
    rw [lt_iff_toNat_lt, hsum] at hlt
    have hnowrap : r.toNat + n < 2 ^ 32 := by omega
    rw [Nat.mod_eq_of_lt hnowrap] at hsum
    have hnil : m.entries.filter (fun e => decide ((e.1 - r).toNat < n) && decide (e.1 < r)) =
        [] := by
      refine filter_eq_nil_iff.mpr fun e _ hcon => ?_
      simp only [Bool.and_eq_true, decide_eq_true_eq] at hcon
      rw [dist_of_lt hcon.2] at hcon
      omega
    rw [hnil, append_nil]
    refine filter_congr fun e _ => ?_
    rw [← Bool.decide_and, decide_eq_decide, and_comm (a := _ < n)]
    refine and_congr_right fun hre => ?_
    rw [lt_iff_toNat_lt, hsum, dist_of_le hre]
    omega
  next hge =>
    rw [lt_iff_toNat_lt, hsum] at hge
    have hwrap : 2 ^ 32 ≤ r.toNat + n := by
      by_contra hcon
      rw [Nat.mod_eq_of_lt (by omega)] at hge
      omega
    have hmod : (r.toNat + n) % 2 ^ 32 = r.toNat + n - 2 ^ 32 := by omega
    rw [hmod] at hsum
    congr 1
    · refine filter_congr fun e _ => ?_
      rw [← Bool.decide_and, decide_eq_decide]
      refine ⟨fun h => ⟨?_, h⟩, And.right⟩
      have := e.1.toNat_lt
      rw [dist_of_le h]
      omega
    · refine filter_congr fun e _ => ?_
      rw [← Bool.decide_and, decide_eq_decide, lt_iff_toNat_lt, hsum]
      constructor
      · intro h
        have hlt : e.1 < r := lt_iff_toNat_lt.mpr (by omega)
        rw [dist_of_lt hlt]
        exact ⟨by omega, hlt⟩
      · intro h
        rw [dist_of_lt h.2] at h
        omega

end VeilNetwork.OrdMap
