import VeilNetwork.Lib.Table

/-!
# Buckets

A table of keys may be indexed by groups: for every group the list of its keys, its bucket. An
entry leaves its bucket by swap removal (the last entry takes its place), and an empty bucket is
not kept.

`Buckets.Index` says that the buckets list exactly the keys of every group, each of them once. It
is kept by both updates, and with it the length of a bucket is the number of keys of its group.
-/

namespace VeilNetwork

open List AList Option

/-! ### Swap removal -/

namespace SwapRemove

variable {α : Type} (l : List α)

/-- Remove the entry at a position; the last entry takes its place. -/
def removeAt (p : ℕ) : List α :=
  match l.getLast? with
  | none => []
  | some z => (l.set p z).dropLast

theorem set_perm_cons_eraseIdx {l : List α} {p : ℕ} (hp : p < l.length) (a : α) :
    (l.set p a).Perm (a :: l.eraseIdx p) := by
  induction l generalizing p with
  | nil => cases hp
  | cons x l ih =>
    cases p with
    | zero => exact List.Perm.refl _
    | succ p => exact ((ih (Nat.lt_of_succ_lt_succ hp)).cons x).trans (List.Perm.swap a x _)

theorem removeAt_perm {l : List α} {p : ℕ} (hp : p < l.length) :
    (removeAt l p).Perm (l.eraseIdx p) := by
  rcases eq_nil_or_concat l with rfl | ⟨init, z, rfl⟩
  · cases hp
  · rw [concat_eq_append] at hp ⊢
    rw [removeAt, getLast?_concat]
    dsimp only
    rcases lt_or_ge p init.length with hlt | hge
    · rw [set_append_left _ _ hlt, dropLast_concat, eraseIdx_append_of_lt_length hlt]
      exact (set_perm_cons_eraseIdx hlt z).trans (perm_append_singleton z _).symm
    · -- the entry removed is the last one
      have hlast : p - init.length = 0 := by
        rw [length_append, length_singleton] at hp
        omega
      rw [set_append_right _ _ hge, eraseIdx_append_of_length_le hge, hlast]
      simp

variable [DecidableEq α]

/-- Remove the first entry equal to `a`. -/
def erase (a : α) : List α :=
  match l.idxOf? a with
  | none => l
  | some p => removeAt l p

theorem erase_perm (a : α) : (erase l a).Perm (l.erase a) := by
  rw [erase, erase_eq_eraseIdx]
  rcases hp : l.idxOf? a with _ | p
  · exact List.Perm.refl _
  · exact removeAt_perm (idxOf?_eq_some_iff.mp hp).1

end SwapRemove

/-! ### Buckets -/

/-- For every group with keys, the list of them. -/
abbrev Buckets (γ κ : Type) : Type := Table γ (List κ)

namespace Buckets

variable {γ κ : Type} [DecidableEq γ]

/-- The keys of a group. -/
def bucket (b : Buckets γ κ) (g : γ) : List κ := (b.lookup g).getD []

/-- Add a key to a group. -/
def push (b : Buckets γ κ) (g : γ) (k : κ) : Buckets γ κ := b.insert g (b.bucket g ++ [k])

variable {b : Buckets γ κ} {g g' : γ} {k k' : κ} {P Q : γ → κ → Prop}

theorem bucket_push_self : (b.push g k).bucket g = b.bucket g ++ [k] := by
  rw [bucket, push, lookup_insert, getD_some]

theorem bucket_push_of_ne (h : g' ≠ g) : (b.push g k).bucket g' = b.bucket g' := by
  rw [bucket, push, lookup_insert_ne h, bucket]

/-! ### The index -/

/-- The buckets list the keys of every group, each once, and no bucket is empty. -/
structure Index (b : Buckets γ κ) (P : γ → κ → Prop) : Prop where
  nodup : ∀ g, (b.bucket g).Nodup
  mem_iff : ∀ g k, k ∈ b.bucket g ↔ P g k
  ne_nil : ∀ g, b.lookup g ≠ some []

theorem Index.empty (h : ∀ g k, ¬P g k) : Index (∅ : Buckets γ κ) P where
  nodup _ := nodup_nil
  mem_iff g k := iff_of_false not_mem_nil (h g k)
  ne_nil g hg := by
    cases hg

theorem Index.congr (h : Index b P) (hPQ : ∀ g k, P g k ↔ Q g k) : Index b Q where
  nodup := h.nodup
  mem_iff g k := (h.mem_iff g k).trans (hPQ g k)
  ne_nil := h.ne_nil

/-- An index of fewer keys has shorter buckets. -/
theorem Index.length_le {b' : Buckets γ κ} (h : Index b P) (h' : Index b' Q)
    (hQP : ∀ k, Q g k → P g k) : (b'.bucket g).length ≤ (b.bucket g).length :=
  (subperm_of_subset (h'.nodup g) fun k hk =>
    (h.mem_iff g k).mpr (hQP k ((h'.mem_iff g k).mp hk))).length_le

/-- A bucket that misses a key is shorter by one at least. -/
theorem Index.length_lt {b' : Buckets γ κ} (h : Index b P) (h' : Index b' Q)
    (hQP : ∀ k, Q g k → P g k) (hk : P g k) (hk' : ¬Q g k) :
    (b'.bucket g).length < (b.bucket g).length := by
  refine (subperm_of_subset (nodup_cons.mpr
    ⟨fun hmem => hk' ((h'.mem_iff g k).mp hmem), h'.nodup g⟩) ?_).length_le
  exact cons_subset.mpr ⟨(h.mem_iff g k).mpr hk, fun k hk =>
    (h.mem_iff g k).mpr (hQP k ((h'.mem_iff g k).mp hk))⟩

theorem Index.push (h : Index b P) (hnew : ¬P g k)
    (hQ : ∀ g' k', Q g' k' ↔ P g' k' ∨ (g' = g ∧ k' = k)) : Index (b.push g k) Q where
  nodup g' := by
    rcases eq_or_ne g' g with rfl | hne
    · rw [bucket_push_self, nodup_append]
      refine ⟨h.nodup g', nodup_singleton k, ?_⟩
      rintro x hx y hy rfl
      rw [mem_singleton.mp hy] at hx
      exact hnew ((h.mem_iff g' k).mp hx)
    · rw [bucket_push_of_ne hne]
      exact h.nodup g'
  mem_iff g' k' := by
    rw [hQ]
    rcases eq_or_ne g' g with rfl | hne
    · rw [bucket_push_self, mem_append, h.mem_iff]
      simp
    · rw [bucket_push_of_ne hne, h.mem_iff]
      simp [hne]
  ne_nil g' := by
    rcases eq_or_ne g' g with rfl | hne
    · rw [Buckets.push]
      simp
    · rw [Buckets.push, lookup_insert_ne hne]
      exact h.ne_nil g'

/-! ### Taking a key out -/

variable [DecidableEq κ]

/-- Take a key out of a group. -/
def unbucket (b : Buckets γ κ) (g : γ) (k : κ) : Buckets γ κ :=
  match b.lookup g with
  | none => b
  | some l => if (SwapRemove.erase l k).isEmpty then b.erase g
    else b.insert g (SwapRemove.erase l k)

theorem bucket_unbucket_self : (b.unbucket g k).bucket g = SwapRemove.erase (b.bucket g) k := by
  rcases hl : b.lookup g with _ | l
  · rw [unbucket, hl]
    rw [bucket, hl]
    rfl
  · rw [unbucket, hl]
    dsimp only
    split
    next hempty =>
      rw [bucket, lookup_erase, bucket, hl, getD_some, isEmpty_iff.mp hempty]
      rfl
    · rw [bucket, lookup_insert, bucket, hl, getD_some, getD_some]

theorem bucket_unbucket_of_ne (h : g' ≠ g) : (b.unbucket g k).bucket g' = b.bucket g' := by
  rw [unbucket]
  split
  · rfl
  · split
    · rw [bucket, lookup_erase_ne h, bucket]
    · rw [bucket, lookup_insert_ne h, bucket]

theorem Index.unbucket (h : Index b P) (g : γ) (k : κ)
    (hQ : ∀ g' k', Q g' k' ↔ P g' k' ∧ ¬(g' = g ∧ k' = k)) : Index (b.unbucket g k) Q where
  nodup g' := by
    rcases eq_or_ne g' g with rfl | hne
    · rw [bucket_unbucket_self, (SwapRemove.erase_perm _ _).nodup_iff]
      exact (h.nodup g').erase k
    · rw [bucket_unbucket_of_ne hne]
      exact h.nodup g'
  mem_iff g' k' := by
    rw [hQ]
    rcases eq_or_ne g' g with rfl | hne
    · rw [bucket_unbucket_self, (SwapRemove.erase_perm _ _).mem_iff, (h.nodup g').mem_erase_iff,
        h.mem_iff]
      simp [and_comm]
    · rw [bucket_unbucket_of_ne hne, h.mem_iff]
      simp [hne]
  ne_nil g' := by
    rw [Buckets.unbucket]
    split
    · exact h.ne_nil g'
    · split
      · intro hnil
        exact h.ne_nil g' (Table.lookup_erase_eq_some hnil).2
      next hne =>
        intro hnil
        rcases Table.lookup_insert_eq_some hnil with ⟨-, hnil⟩ | ⟨-, hnil⟩
        · exact hne (isEmpty_iff.mpr hnil.symm)
        · exact h.ne_nil g' hnil

end Buckets

end VeilNetwork
