import Mathlib.Data.List.Induction
import Mathlib.Data.List.Sort

/-!
# The nearest elements of a list

The `n` least elements of a list, found in one pass with a bounded max-heap: an element enters
while there is room, and takes the place of the greatest one kept if it is closer. A heap is
observed through its elements in ascending order, so it is that list here: a push inserts in
order, the greatest element is the last one, and a pop drops it.

`Nearest.Kept` says what the heap holds after any part of the pass, and `Nearest.kept_foldl` that
it does.
-/

namespace VeilNetwork.Nearest

open List

variable {α : Type} (r : α → α → Prop)

/-- The heap holds the `n` least elements of a list, in ascending order. -/
structure Kept (n : ℕ) (l heap : List α) : Prop where
  sorted : heap.Pairwise r
  nodup : heap.Nodup
  subset : heap ⊆ l
  length_eq : heap.length = min n l.length
  least : ∀ a ∈ l, a ∉ heap → ∀ b ∈ heap, r b a

variable {r} {n : ℕ} {l heap : List α} {a : α}

theorem kept_nil (n : ℕ) : Kept r n [] [] where
  sorted := List.Pairwise.nil
  nodup := nodup_nil
  subset := nil_subset _
  length_eq := (Nat.min_zero n).symm
  least _ ha := absurd ha not_mem_nil

/-- A heap with room holds everything. -/
theorem Kept.mem_of_lt (h : Kept r n l heap) (hroom : heap.length < n) (ha : a ∈ l) :
    a ∈ heap := by
  have hlen := h.length_eq
  have hperm : heap.Perm l := (subperm_of_subset h.nodup h.subset).perm_of_length_le (by omega)
  exact hperm.mem_iff.mpr ha

variable {kept : List α} {top : α}

theorem Kept.le_top {b : α} (h : Kept r n l (kept ++ [top])) (hb : b ∈ kept) : r b top :=
  (pairwise_append.mp h.sorted).2.2 b hb top (mem_singleton_self top)

/-! ### Offers -/

variable [DecidableRel r]

variable (r) in
/-- Offer an element to a heap of at most `n`. -/
def offer (closer : α → α → Bool) (n : ℕ) (heap : List α) (a : α) : List α :=
  if heap.length < n then heap.orderedInsert r a
  else
    match heap.getLast? with
    | none => heap
    | some top => if closer a top then heap.dropLast.orderedInsert r a else heap

variable [Std.Total r] [IsTrans α r] {closer : α → α → Bool}

theorem Kept.insert (h : Kept r n l heap) (hroom : heap.length < n) (ha : a ∉ l) :
    Kept r n (l ++ [a]) (heap.orderedInsert r a) where
  sorted := h.sorted.orderedInsert a heap
  nodup := by
    rw [(perm_orderedInsert r a heap).nodup_iff, nodup_cons]
    exact ⟨fun hmem => ha (h.subset hmem), h.nodup⟩
  subset b hb := by
    rw [mem_orderedInsert] at hb
    rcases hb with rfl | hb
    · exact mem_append_right _ (mem_singleton_self b)
    · exact mem_append_left _ (h.subset hb)
  length_eq := by
    have := h.length_eq
    rw [orderedInsert_length, length_append, length_singleton]
    omega
  least b hb hout := by
    rw [mem_orderedInsert, not_or] at hout
    rcases mem_append.mp hb with hb | hb
    · exact absurd (h.mem_of_lt hroom hb) hout.2
    · exact absurd (mem_singleton.mp hb) hout.1

/-- A closer element takes the place of the greatest one kept. -/
theorem Kept.replace (h : Kept r n l (kept ++ [top]))
    (hfull : n ≤ (kept ++ [top]).length) (ha : a ∉ l) (hcloser : ¬r top a) :
    Kept r n (l ++ [a]) (kept.orderedInsert r a) := by
  have hle : r a top := (Std.Total.total a top).resolve_right hcloser
  obtain ⟨hsorted, -, -⟩ := pairwise_append.mp h.sorted
  obtain ⟨hnodup, -, -⟩ := nodup_append.mp h.nodup
  have hkept : ∀ b ∈ kept, b ∈ l := fun b hb => h.subset (mem_append_left _ hb)
  refine ⟨hsorted.orderedInsert a kept, ?_, ?_, ?_, ?_⟩
  · rw [(perm_orderedInsert r a kept).nodup_iff, nodup_cons]
    exact ⟨fun hmem => ha (hkept a hmem), hnodup⟩
  · intro b hb
    rw [mem_orderedInsert] at hb
    rcases hb with rfl | hb
    · exact mem_append_right _ (mem_singleton_self b)
    · exact mem_append_left _ (hkept b hb)
  · have := h.length_eq
    rw [orderedInsert_length]
    simp only [length_append, length_singleton] at *
    omega
  · intro b hb hout c hc
    rw [mem_orderedInsert, not_or] at hout
    rw [mem_orderedInsert] at hc
    have hb' : b ∈ l := (mem_append.mp hb).resolve_right
      fun heq => hout.1 (mem_singleton.mp heq)
    have hctop : r c top := by
      rcases hc with rfl | hc
      · exact hle
      · exact h.le_top hc
    -- what is left out now is the old top or was left out before
    by_cases hbtop : b = top
    · exact hbtop ▸ hctop
    · refine IsTrans.trans _ _ _ hctop (h.least b hb' ?_ top
        (mem_append_right _ (mem_singleton_self top)))
      intro hmem
      rcases mem_append.mp hmem with hmem | hmem
      · exact hout.2 hmem
      · exact hbtop (mem_singleton.mp hmem)

omit [DecidableRel r] [Std.Total r] in
/-- What is not closer than the greatest one kept stays out. -/
theorem Kept.skip (h : Kept r n l (kept ++ [top]))
    (hfull : n ≤ (kept ++ [top]).length) (hfar : r top a) :
    Kept r n (l ++ [a]) (kept ++ [top]) where
  sorted := h.sorted
  nodup := h.nodup
  subset b hb := mem_append_left _ (h.subset hb)
  length_eq := by
    have := h.length_eq
    have hlen : (l ++ [a]).length = l.length + 1 := length_append
    omega
  least b hb hout c hc := by
    rcases mem_append.mp hb with hb | hb
    · exact h.least b hb hout c hc
    · rw [mem_singleton.mp hb]
      rcases mem_append.mp hc with hc | hc
      · exact IsTrans.trans _ _ _ (h.le_top hc) hfar
      · rwa [mem_singleton.mp hc]

/-- **One offer keeps the least elements.** -/
theorem Kept.offer (h : Kept r n l heap) (ha : a ∉ l)
    (hcloser : ∀ b ∈ l, closer a b = true ↔ ¬r b a) :
    Kept r n (l ++ [a]) (offer r closer n heap a) := by
  rw [Nearest.offer]
  split
  next hroom => exact h.insert hroom ha
  rename_i hfull
  rcases eq_nil_or_concat heap with rfl | ⟨kept, top, rfl⟩
  · -- nothing is kept, and nothing is asked for
    have hn : n = 0 := by
      rw [length_nil] at hfull
      omega
    subst hn
    exact ⟨List.Pairwise.nil, nodup_nil, nil_subset _, (Nat.zero_min _).symm,
      nofun⟩
  rw [concat_eq_append] at h hfull ⊢
  rw [getLast?_concat, dropLast_concat]
  have htop : top ∈ l := h.subset (mem_append_right _ (mem_singleton_self top))
  dsimp only
  split
  next hclose => exact h.replace (Nat.le_of_not_lt hfull) ha ((hcloser top htop).mp hclose)
  next hfar =>
    exact h.skip (Nat.le_of_not_lt hfull)
      (Decidable.not_not.mp fun hnot => hfar ((hcloser top htop).mpr hnot))

/-- **The pass keeps the least elements**, if elements are different and are compared by their
order. -/
theorem kept_foldl (hnodup : l.Nodup)
    (hcloser : ∀ a ∈ l, ∀ b ∈ l, a ≠ b → (closer a b = true ↔ ¬r b a)) :
    Kept r n l (l.foldl (Nearest.offer r closer n) []) := by
  induction l using reverseRecOn with
  | nil => exact kept_nil n
  | append_singleton l a ih =>
    obtain ⟨hl, -, hdisj⟩ := nodup_append.mp hnodup
    have ha : a ∉ l := fun hmem => hdisj a hmem a (mem_singleton_self a) rfl
    rw [foldl_append]
    refine .offer (ih hl fun b hb c hc => hcloser b (mem_append_left _ hb) c
      (mem_append_left _ hc)) ha fun b hb => ?_
    exact hcloser a (mem_append_right _ (mem_singleton_self a)) b
      (mem_append_left _ hb) fun heq => ha (heq ▸ hb)

end VeilNetwork.Nearest
