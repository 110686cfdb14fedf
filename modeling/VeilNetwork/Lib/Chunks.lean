import Mathlib.Algebra.Ring.Nat
import Mathlib.Algebra.BigOperators.Group.List.Basic

/-!
# Cutting a list into chunks and putting it together again

The chunks of a list at a given size, in order, the last one possibly shorter; and a partial
collection of them, a list with a place for each chunk. What is held of the whole never
exceeds it, and a collection without gaps is the whole.
-/

namespace VeilNetwork.Chunks

open List Option

variable {α : Type*} (n : ℕ) (l : List α)

/-- The number of chunks of size `n`: the length divided by `n`, rounded up. -/
def count : ℕ := (l.length + n - 1) / n

/-- Chunk number `i`. -/
def chunk (i : ℕ) : List α := (l.drop (i * n)).take n

/-- The chunks in order. -/
def chunks : List (List α) := (List.range (count n l)).map (chunk n l)

@[simp] theorem length_chunks : (chunks n l).length = count n l := by
  simp [chunks]

theorem getElem?_chunks {n : ℕ} {l : List α} {i : ℕ} (h : i < count n l) :
    (chunks n l)[i]? = some (chunk n l i) := by
  simp [chunks, h]

theorem length_le_count_mul {n : ℕ} (hn : 0 < n) (l : List α) : l.length ≤ count n l * n := by
  have hdiv := Nat.div_add_mod (l.length + n - 1) n
  have hmod := Nat.mod_lt (l.length + n - 1) hn
  rw [mul_comm] at hdiv
  rw [count]
  omega

/-- Chunks below the count are not empty. -/
theorem chunk_ne_nil {n : ℕ} {l : List α} {i : ℕ} (hn : 0 < n) (h : i < count n l) :
    chunk n l i ≠ [] := by
  have hlt : i * n < l.length := by
    have := Nat.mul_le_of_le_div n (i + 1) _ (Nat.succ_le_of_lt h)
    rw [Nat.succ_mul] at this
    omega
  intro hnil
  have hlen := congrArg length hnil
  rw [chunk, length_take, length_drop, length_nil] at hlen
  omega

theorem length_chunk_le_length (i : ℕ) : (chunk n l i).length ≤ l.length := by
  rw [chunk, length_take, length_drop]
  omega

theorem flatten_range (k : ℕ) : ((List.range k).map (chunk n l)).flatten = l.take (k * n) := by
  induction k with
  | zero => simp
  | succ k ih =>
    rw [range_succ, map_append, flatten_append, ih, Nat.succ_mul, take_add]
    simp [chunk]

/-- **The chunks put together are the list.** -/
theorem flatten_chunks {n : ℕ} (hn : 0 < n) (l : List α) : (chunks n l).flatten = l := by
  rw [chunks, flatten_range, take_of_length_le (length_le_count_mul hn l)]

/-! ### Partial collections -/

variable (parts : List (Option (List α)))

/-- What is collected in each place is the chunk of that place. -/
def Fills (whole : List (List α)) : Prop :=
  List.Forall₂ (fun o c => ∀ x ∈ o, x = c) parts whole

/-- The number of elements collected. -/
def held : ℕ := (parts.map fun o => (o.getD []).length).sum

variable {parts : List (Option (List α))} {whole : List (List α)} {i : ℕ} {c : List α}

theorem fills_replicate (whole : List (List α)) :
    Fills (List.replicate whole.length none) whole := by
  induction whole with
  | nil => exact .nil
  | cons c whole ih => exact .cons (nofun) ih

theorem held_replicate (k : ℕ) : held (List.replicate k (none : Option (List α))) = 0 := by
  simp [held]

/-- Collecting one more chunk. -/
theorem Fills.set (h : Fills parts whole) (hc : whole[i]? = some c) :
    Fills (parts.set i (some c)) whole := by
  induction h generalizing i with
  | nil => cases hc
  | @cons o d parts whole hod hrest ih =>
    cases i with
    | zero =>
      obtain rfl : d = c := by simpa using hc
      exact .cons (fun x hx => (some.inj hx).symm) hrest
    | succ i => exact .cons hod (ih (by simpa using hc))

theorem held_set (h : parts[i]? = some none) :
    held (parts.set i (some c)) = held parts + c.length := by
  induction parts generalizing i with
  | nil => cases h
  | cons o parts ih =>
    cases i with
    | zero =>
      obtain rfl : o = none := by simpa using h
      simp [held, add_comm]
    | succ i =>
      have := ih (i := i) (by simpa using h)
      simp only [held, set_cons_succ, map_cons, sum_cons] at this ⊢
      omega

/-- **No more is held than the whole.** -/
theorem Fills.held_le (h : Fills parts whole) : held parts ≤ whole.flatten.length := by
  induction h with
  | nil => exact le_refl _
  | @cons o c parts whole hoc _ ih =>
    have hle : (o.getD []).length ≤ c.length := by
      cases o with
      | none => exact Nat.zero_le _
      | some x => exact le_of_eq (congrArg length (hoc x rfl))
    simp only [held, map_cons, sum_cons, flatten_cons, length_append] at ih ⊢
    omega

/-- **Without a gap the collection is the whole.** -/
theorem Fills.complete (h : Fills parts whole) (hall : ∀ o ∈ parts, o ≠ none) :
    (parts.map fun o => o.getD []) = whole := by
  induction h with
  | nil => rfl
  | @cons o c parts whole hoc _ ih =>
    have hrest := ih fun o ho => hall o (mem_cons_of_mem _ ho)
    obtain ⟨x, rfl⟩ := ne_none_iff_exists'.mp (hall o mem_cons_self)
    rw [map_cons, hrest, getD_some, hoc x rfl]

theorem Fills.held_eq (h : Fills parts whole) (hall : ∀ o ∈ parts, o ≠ none) :
    held parts = whole.flatten.length := by
  rw [← h.complete hall, length_flatten, List.map_map]
  rfl

end VeilNetwork.Chunks
