import VeilNetwork.Lib.ReplayWindow
import VeilNetwork.Lib.Run

/-!
# Replayed cells of a circuit

Each direction of a circuit numbers its cells, and a hop takes a number once. The bitmap is a ring
in which only the slots that a jump enters are cleared, a word or a part of one at a time. The
slots are those of the numbers accepted (`ReplayWindow.Holds`), so along every run a number is
taken exactly if it is new and not below the window (`ReplayWindow.accepted_exactly_once`).
-/

namespace VeilNetwork.Anonymity

open List Nat

/-- `CIRCUIT_REPLAY_WINDOW_CELLS`. -/
def circuitReplayWindowCells : ℕ := 8192

/-- The sequence numbers of one direction of a circuit: the highest that was accepted, and a bit
for each of the last 8192, in a ring of words. -/
structure ReplayWindow where
  highest : ℕ
  seen : Fin 128 → BitVec 64

namespace ReplayWindow

def new : ReplayWindow := ⟨0, fun _ => 0⟩

/-- The word of a slot of the ring. -/
def word (position : ℕ) : Fin 128 := Fin.ofNat 128 (position / 64)

/-- The bits of a word from an offset on. -/
def mask (offset count : ℕ) : BitVec 64 :=
  if count = 64 then BitVec.allOnes 64 else ((1#64 <<< count) - 1#64) <<< offset

/-- Clear slots from a position on, a word or a part of one at a time. -/
def clear (seen : Fin 128 → BitVec 64) (position remaining : ℕ) : Fin 128 → BitVec 64 :=
  if remaining = 0 then seen
  else
    let offset := position % 64
    let count := min remaining (64 - offset)
    clear (Function.update seen (word position) (seen (word position) &&& ~~~mask offset count))
      ((position + count) % circuitReplayWindowCells) (remaining - count)
termination_by remaining
decreasing_by omega

/-- The highest number moves up to `seq`, and the slots that enter the window are cleared. -/
def advance (w : ReplayWindow) (seq : ℕ) : ReplayWindow where
  highest := seq
  seen :=
    if circuitReplayWindowCells ≤ seq - w.highest then fun _ => 0
    else clear w.seen ((w.highest + 1) % circuitReplayWindowCells) (seq - w.highest)

/-- Take the slot of a number in the window, unless it is taken. -/
def record (w : ReplayWindow) (seq : ℕ) : Bool × ReplayWindow :=
  let position := seq % circuitReplayWindowCells
  let bit := 1#64 <<< (position % 64)
  if w.seen (word position) &&& bit ≠ 0 then (false, w)
  else
    (true, { w with
      seen := Function.update w.seen (word position) (w.seen (word position) ||| bit) })

/-- A number is accepted once, if it is not too old. -/
def accept (w : ReplayWindow) (seq : ℕ) : Bool × ReplayWindow :=
  if seq = 0 then (false, w)
  else if w.highest < seq then (w.advance seq).record seq
  else if circuitReplayWindowCells ≤ w.highest - seq then (false, w)
  else w.record seq

/-! ### Slots -/

/-- The bit of a slot. -/
def slot (seen : Fin 128 → BitVec 64) (p : ℕ) : Bool := (seen (word p)).getLsbD (p % 64)

theorem getLsbD_mask {offset count : ℕ} (h : offset + count ≤ 64) (j : ℕ) :
    (mask offset count).getLsbD j = (decide (offset ≤ j) && decide (j < offset + count)) := by
  rw [mask]
  split
  next hall =>
    rw [BitVec.getLsbD_allOnes, hall, show offset = 0 by omega]
    simp
  next hpart =>
    have hlow (i : ℕ) : ((1#64 <<< count) - 1#64).getLsbD i = decide (i < count) := by
      have hshift : (1#64 <<< count).toNat = 2 ^ count := by
        rw [BitVec.toNat_shiftLeft, BitVec.toNat_ofNat, shiftLeft_eq, one_mod, one_mul]
        exact Nat.mod_eq_of_lt (Nat.pow_lt_pow_right (by decide) (by omega))
      have hle : 1#64 ≤ 1#64 <<< count := by
        rw [BitVec.le_def, hshift]
        exact Nat.one_le_two_pow
      rw [BitVec.getLsbD, BitVec.toNat_sub_of_le hle, hshift]
      exact testBit_two_pow_sub_one count i
    rw [BitVec.getLsbD_shiftLeft, hlow]
    grind

variable {seen : Fin 128 → BitVec 64} {p position remaining : ℕ}

theorem word_eq_iff (hp : p < circuitReplayWindowCells)
    (hq : position < circuitReplayWindowCells) :
    word p = word position ↔ p / 64 = position / 64 := by
  rw [circuitReplayWindowCells] at hp hq
  rw [word, word, Fin.ext_iff, Fin.val_ofNat, Fin.val_ofNat, mod_eq_of_lt (by omega),
    mod_eq_of_lt (by omega)]

/-- The slots after the word of one of them has changed. -/
theorem slot_update (hp : p < circuitReplayWindowCells)
    (hq : position < circuitReplayWindowCells) (b : BitVec 64) :
    slot (Function.update seen (word position) b) p =
      if p / 64 = position / 64 then b.getLsbD (p % 64) else slot seen p := by
  rw [slot, Function.update_apply]
  simp only [word_eq_iff hp hq, apply_ite (fun w : BitVec 64 => w.getLsbD (p % 64))]
  rfl

/-- **What the loop clears**: the slots from the position on, around the end of the ring. -/
theorem slot_clear (hp : p < circuitReplayWindowCells)
    (hq : position < circuitReplayWindowCells) (hrem : remaining ≤ circuitReplayWindowCells) :
    slot (clear seen position remaining) p ↔ slot seen p ∧
      remaining ≤ (p + circuitReplayWindowCells - position) % circuitReplayWindowCells := by
  fun_induction clear seen position remaining with
  | case1 seen position => simp
  | case2 seen position remaining hne offset count ih =>
    have harc : remaining ≤ (p + circuitReplayWindowCells - position) % circuitReplayWindowCells ↔
        ¬(position ≤ p ∧ p < position + count) ∧ remaining - count ≤ (p + circuitReplayWindowCells -
          (position + count) % circuitReplayWindowCells) % circuitReplayWindowCells := by
      rw [circuitReplayWindowCells] at *
      omega
    rw [ih (mod_lt _ (by decide)) (by omega), slot_update hp hq, harc, ← and_assoc]
    refine and_congr_left' ?_
    split
    next hsame =>
      have hword : offset ≤ p % 64 ∧ p % 64 < offset + count ↔
          position ≤ p ∧ p < position + count := by
        omega
      rw [← (word_eq_iff hp hq).mpr hsame, BitVec.getLsbD_and, BitVec.getLsbD_not,
        getLsbD_mask (by omega), ← hword, slot, decide_eq_true (mod_lt p (by decide))]
      grind
    next hother => exact (and_iff_left (by omega)).symm

/-! ### What was accepted -/

/-- The slots of the window tell what was accepted, and nothing above the highest was. -/
structure Holds (w : ReplayWindow) (accepted : List ℕ) : Prop where
  le_highest : ∀ a ∈ accepted, a ≤ w.highest
  slots : ∀ s, 0 < s → s ≤ w.highest → w.highest < s + circuitReplayWindowCells →
    (slot w.seen (s % circuitReplayWindowCells) ↔ s ∈ accepted)

variable {w : ReplayWindow} {accepted : List ℕ} {seq : ℕ}

theorem Holds.advance (h : w.Holds accepted) (hseq : w.highest < seq) :
    (w.advance seq).Holds accepted := by
  refine ⟨fun a ha => (h.le_highest a ha).trans hseq.le, fun s hpos hle hin => ?_⟩
  have hnew (hs : w.highest < s) : s ∉ accepted := fun hmem => (h.le_highest s hmem).not_gt hs
  dsimp only [ReplayWindow.advance] at hle hin ⊢
  split
  next hjump => exact iff_of_false (by simp [slot]) (hnew (by omega))
  next hnear =>
    rw [slot_clear (mod_lt _ (by decide)) (mod_lt _ (by decide)) (by omega)]
    by_cases hs : w.highest < s
    · refine iff_of_false (fun hcleared => ?_) (hnew hs)
      rw [circuitReplayWindowCells] at *
      omega
    · rw [← h.slots s hpos (by omega) (by omega)]
      refine and_iff_left ?_
      rw [circuitReplayWindowCells] at *
      omega

/-- A number in the window is taken exactly if it was not accepted before. -/
theorem Holds.record (h : w.Holds accepted) (hpos : 0 < seq) (hle : seq ≤ w.highest)
    (hin : w.highest < seq + circuitReplayWindowCells) :
    ((w.record seq).1 = true ↔ seq ∉ accepted) ∧ (w.record seq).2.highest = w.highest ∧
      (w.record seq).2.Holds (if (w.record seq).1 then accepted ++ [seq] else accepted) := by
  have hlt (s : ℕ) : s % circuitReplayWindowCells < circuitReplayWindowCells :=
    mod_lt _ (by decide)
  have hbit (p : ℕ) : (w.seen (word p) &&& 1#64 <<< (p % 64) ≠ 0) ↔ slot w.seen p = true := by
    rw [← bne_iff_ne, VeilNetwork.ReplayWindow.and_shiftLeft_one_ne_zero]
    rfl
  rw [ReplayWindow.record]
  simp only [hbit, h.slots seq hpos hle hin]
  split
  next hmem => exact ⟨iff_of_false Bool.false_ne_true (not_not_intro hmem), rfl, h⟩
  next hnew =>
    refine ⟨iff_of_true rfl hnew, rfl, ?_, fun s hs hsle hsin => ?_⟩
    · rintro a ha
      rcases mem_append.mp ha with ha | ha
      · exact h.le_highest a ha
      · exact mem_singleton.mp ha ▸ hle
    · have hsame : s % circuitReplayWindowCells = seq % circuitReplayWindowCells ↔ s = seq := by
        dsimp only at hsle hsin
        rw [circuitReplayWindowCells] at *
        omega
      rw [if_pos rfl, mem_append, mem_singleton, ← h.slots s hs hsle hsin, ← hsame,
        slot_update (hlt s) (hlt seq)]
      split
      next hword =>
        rw [← (word_eq_iff (hlt s) (hlt seq)).mpr hword, BitVec.getLsbD_or,
          VeilNetwork.ReplayWindow.getLsbD_shiftLeft_one, slot]
        grind
      next hword => exact (or_iff_left fun heq => hword (by rw [heq])).symm

/-! ### Runs -/

/-- A window after a sequence of numbers, with those it accepted, in this order. -/
def run (seqs : List ℕ) : ReplayWindow × List ℕ :=
  seqs.foldl (fun t seq => ((t.1.accept seq).2, if (t.1.accept seq).1 then t.2 ++ [seq] else t.2))
    (new, [])

variable (seq) in
/-- **One call**: a number is accepted exactly if it is new and not below the window. -/
theorem Holds.accept (h : w.Holds accepted) (hmax : w.highest = accepted.foldl max 0) :
    ((w.accept seq).1 = true ↔ 0 < seq ∧ seq ∉ accepted ∧
      (w.highest < seq ∨ w.highest - seq < circuitReplayWindowCells)) ∧
    (w.accept seq).2.Holds (if (w.accept seq).1 then accepted ++ [seq] else accepted) ∧
    (w.accept seq).2.highest =
      (if (w.accept seq).1 then accepted ++ [seq] else accepted).foldl max 0 := by
  rw [ReplayWindow.accept]
  split
  next hzero => exact ⟨iff_of_false Bool.false_ne_true fun hs => hs.1.ne' hzero, h, hmax⟩
  next hzero =>
  have hpos := Nat.pos_of_ne_zero hzero
  split
  next hhigh =>
    have hnew : seq ∉ accepted := fun hmem => (h.le_highest seq hmem).not_gt hhigh
    obtain ⟨hiff, htop, hholds⟩ :=
      (h.advance hhigh).record hpos le_rfl (Nat.lt_add_of_pos_right (by decide))
    refine ⟨hiff.trans (iff_of_true hnew ⟨hpos, hnew, .inl hhigh⟩), hholds, ?_⟩
    rw [htop, if_pos (hiff.mpr hnew), foldl_append, ← hmax]
    exact (max_eq_right hhigh.le).symm
  next hlow =>
  split
  next hold => exact ⟨iff_of_false Bool.false_ne_true fun hs => by omega, h, hmax⟩
  next hin =>
  obtain ⟨hiff, htop, hholds⟩ := h.record hpos (by omega) (by omega)
  refine ⟨hiff.trans ⟨fun hnew => ⟨hpos, hnew, .inr (by omega)⟩, fun hs => hs.2.1⟩, hholds, ?_⟩
  rw [htop]
  split
  · rw [foldl_append, ← hmax]
    exact (max_eq_left (by omega)).symm
  · exact hmax

/-- **The window is exact**: along every sequence of numbers, one is accepted exactly if it is at
least one, was not accepted before, and is above the highest accepted or less than 8192 below it.
So none is accepted twice. -/
theorem accepted_exactly_once (seqs : List ℕ) :
    (∀ seq, ((run seqs).1.accept seq).1 = true ↔ 1 ≤ seq ∧ seq ∉ (run seqs).2 ∧
      ((run seqs).2.foldl max 0 < seq ∨
        (run seqs).2.foldl max 0 - seq < circuitReplayWindowCells)) ∧
    (run seqs).1.highest = (run seqs).2.foldl max 0 ∧ (run seqs).2.Nodup := by
  have hrun : (run seqs).1.Holds (run seqs).2 ∧
      (run seqs).1.highest = (run seqs).2.foldl max 0 ∧ (run seqs).2.Nodup := by
    refine Run.invariant (P := fun t : ReplayWindow × List ℕ => t.1.Holds t.2 ∧
      t.1.highest = t.2.foldl max 0 ∧ t.2.Nodup) (fun t seq ht => ?_)
      ⟨⟨fun a ha => absurd ha not_mem_nil, fun s hpos hle => absurd hle hpos.not_ge⟩, rfl,
        nodup_nil⟩ seqs
    obtain ⟨hiff, hholds, hmax⟩ := ht.1.accept seq ht.2.1
    refine ⟨hholds, hmax, ?_⟩
    split
    next hacc =>
      exact nodup_append.mpr ⟨ht.2.2, nodup_singleton seq, fun a ha b hb hab =>
        (hiff.mp hacc).2.1 (mem_singleton.mp hb ▸ hab ▸ ha)⟩
    · exact ht.2.2
  refine ⟨fun seq => ?_, hrun.2⟩
  rw [← hrun.2.1]
  exact (hrun.1.accept seq hrun.2.1).1

end ReplayWindow

end VeilNetwork.Anonymity
