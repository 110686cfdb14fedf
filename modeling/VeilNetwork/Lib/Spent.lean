import Mathlib.Data.List.Nodup

/-!
# What is honoured once

A guard honours an item once: it keeps the key of what it has honoured until a time of its own
choosing, and it takes no item that its validity check refuses. The two clocks are independent.
`Spent.Guards` ties them together: whatever was honoured is in the memory for as long as a copy of
it could still pass the validity check. As long as that is so, no item is honoured a second time
(`Spent.Guards.honour`).

The memory is given by what it answers: `memory k u` says that it keeps the key `k` until `u`.
-/

namespace VeilNetwork.Spent

open List

variable {α κ : Type*} (key : α → κ) (accepts : α → ℕ → Prop)

/-- What was honoured, with the time until which it is kept, against the memory at a time. -/
structure Guards (log : List (α × ℕ)) (now : ℕ) (memory : κ → ℕ → Prop) : Prop where
  once : (log.map Prod.fst).Nodup
  kept : ∀ e ∈ log, now < e.2 → memory (key e.1) e.2
  covered : ∀ e ∈ log, ∀ t, accepts e.1 t → t < e.2

variable {key accepts} {log : List (α × ℕ)} {now later expiry : ℕ} {memory memory' : κ → ℕ → Prop}
  {a : α}

theorem guards_nil : Guards key accepts [] now memory where
  once := nodup_nil
  kept := nofun
  covered := nofun

section

variable (h : Guards key accepts log now memory)

include h

/-- Time passes, and the memory loses at most what it no longer has to keep. -/
theorem Guards.mono (hle : now ≤ later) (hkeep : ∀ k u, later < u → memory k u → memory' k u) :
    Guards key accepts log later memory' where
  once := h.once
  kept := fun e he hlive => hkeep _ _ hlive (h.kept e he (Nat.lt_of_le_of_lt hle hlive))
  covered := h.covered

/-- **A copy that is still valid is still remembered.** -/
theorem Guards.remembered {e : α × ℕ} (he : e ∈ log) (hvalid : accepts e.1 now) :
    now < e.2 ∧ memory (key e.1) e.2 :=
  have hlive : now < e.2 := h.covered e he now hvalid
  ⟨hlive, h.kept e he hlive⟩

/-- **An item is honoured**: it passes the check, the memory does not hold its key, and no copy of
it will be valid once the memory is free to forget it. It was not honoured before. -/
theorem Guards.honour (hvalid : accepts a now) (hfresh : ∀ u, memory (key a) u → u ≤ now)
    (hcovered : ∀ t, accepts a t → t < expiry) (hnew : memory' (key a) expiry)
    (hkeep : ∀ k u, k ≠ key a → now < u → memory k u → memory' k u) :
    Guards key accepts (log ++ [(a, expiry)]) now memory' where
  once := by
    rw [map_append]
    refine nodup_append.mpr ⟨h.once, nodup_singleton a, ?_⟩
    rintro b hb b' hb' rfl
    obtain rfl : b = a := mem_singleton.mp hb'
    obtain ⟨e, he, rfl⟩ := mem_map.mp hb
    -- an earlier copy would still be remembered
    obtain ⟨hlive, hmem⟩ := h.remembered he hvalid
    exact absurd (hfresh _ hmem) (Nat.not_le.mpr hlive)
  kept := by
    intro e he hlive
    rcases mem_append.mp he with he | he
    · have hmem := h.kept e he hlive
      refine hkeep _ _ (fun hkey => ?_) hlive hmem
      rw [hkey] at hmem
      exact absurd (hfresh _ hmem) (Nat.not_le.mpr hlive)
    · obtain rfl := mem_singleton.mp he
      exact hnew
  covered := by
    intro e he t ht
    rcases mem_append.mp he with he | he
    · exact h.covered e he t ht
    · obtain rfl := mem_singleton.mp he
      exact hcovered t ht

end

end VeilNetwork.Spent
