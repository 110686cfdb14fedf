import Mathlib.Data.List.Induction
import Mathlib.Data.List.Basic
import Mathlib.Algebra.Group.Nat.Defs
import Mathlib.Order.Defs.LinearOrder

/-!
# Big-endian numbers and reading bytes from the front

A number of `w` bytes on the wire, most significant byte first, and the readers
that take it off the front of a buffer again. A reader returns what it read with
the rest of the buffer, or nothing when the buffer is too short; the one fact
about each is that it undoes the corresponding writer whatever follows.
-/

namespace VeilNetwork

open List Nat Option

namespace Bytes

/-! ### Numbers as bytes -/

/-- The `w` low bytes of `n`, most significant first. -/
def toBe : ℕ → ℕ → List UInt8
  | 0, _ => []
  | w + 1, n => UInt8.ofNat (n / 256 ^ w) :: toBe w n

variable (l : List UInt8)

/-- The number a list of bytes spells, most significant first. -/
def ofBe : ℕ := l.foldl (fun acc b => acc * 256 + b.toNat) 0

@[simp] theorem length_toBe (w n : ℕ) : (toBe w n).length = w := by
  induction w with
  | zero => rfl
  | succ w ih => simp [toBe, ih]

theorem foldl_toBe (w n acc : ℕ) :
    (toBe w n).foldl (fun acc b => acc * 256 + b.toNat) acc = acc * 256 ^ w + n % 256 ^ w := by
  induction w generalizing acc with
  | zero => simp [toBe, mod_one]
  | succ w ih =>
    have hmod : n % 256 ^ (w + 1) = n % 256 ^ w + 256 ^ w * (n / 256 ^ w % 256) := mod_pow_succ
    rw [toBe, foldl_cons, ih, hmod, UInt8.toNat_ofNat', pow_succ]
    grind

/-- **Spelling a number and reading it back** keeps its low bytes. -/
theorem ofBe_toBe (w n : ℕ) : ofBe (toBe w n) = n % 256 ^ w := by
  rw [ofBe, foldl_toBe]
  omega

theorem ofBe_concat (b : UInt8) : ofBe (l ++ [b]) = ofBe l * 256 + b.toNat := by
  simp [ofBe]

theorem ofBe_lt : ofBe l < 256 ^ l.length := by
  induction l using reverseRecOn with
  | nil => decide
  | append_singleton l b ih =>
    have hb := b.toNat_lt
    rw [ofBe_concat, length_append, length_singleton, pow_succ]
    omega

theorem ofBe_append (l l' : List UInt8) :
    ofBe (l ++ l') = ofBe l * 256 ^ l'.length + ofBe l' := by
  induction l' using reverseRecOn with
  | nil => simp [ofBe]
  | append_singleton l' b ih =>
    rw [← append_assoc, ofBe_concat, ofBe_concat, ih, length_append,
      length_singleton, pow_succ, Nat.add_mul, Nat.mul_assoc, Nat.add_assoc]

theorem ofBe_cons (b : UInt8) (l : List UInt8) :
    ofBe (b :: l) = b.toNat * 256 ^ l.length + ofBe l := by
  have hone : ofBe [b] = b.toNat := by simp [ofBe]
  rw [← singleton_append, ofBe_append, hone]

/-- A string with its length in front, in `w` bytes. -/
def sized (w : ℕ) (v : List UInt8) : List UInt8 := toBe w v.length ++ v

/-- The zero bits before the first one of a byte. -/
def leadingZeros (b : UInt8) : ℕ := if b = 0 then 8 else 7 - b.toNat.log2

variable {l : List UInt8}

/-- **Bytes compare as the numbers they are**, where there are as many of them. -/
theorem ofBe_lt_ofBe_iff {l' : List UInt8} (h : l.length = l'.length) :
    ofBe l < ofBe l' ↔ l < l' := by
  induction l generalizing l' with
  | nil =>
    obtain rfl := length_eq_zero_iff.mp h.symm
    exact iff_of_false (Nat.lt_irrefl _) (not_lt_nil _)
  | cons b l ih =>
    cases l' with
    | nil => cases h
    | cons b' l' =>
      have hlen : l.length = l'.length := succ.inj h
      have hl := ofBe_lt l
      have hl' := ofBe_lt l'
      rw [← hlen] at hl'
      rw [ofBe_cons, ofBe_cons, ← hlen, cons_lt_cons_iff, ← ih hlen, UInt8.lt_iff_toNat_lt,
        ← UInt8.toNat_inj]
      -- the first byte decides, unless it is the same
      rcases Nat.lt_trichotomy b.toNat b'.toNat with hlt | heq | hgt
      · have hmul := mul_le_mul_right (256 ^ l.length) (succ_le_of_lt hlt)
        rw [succ_mul] at hmul
        omega
      · rw [heq]
        omega
      · have hmul := mul_le_mul_right (256 ^ l.length) (succ_le_of_lt hgt)
        rw [succ_mul] at hmul
        omega

theorem toBe_succ_concat (w n : ℕ) : toBe (w + 1) n = toBe w (n / 256) ++ [UInt8.ofNat n] := by
  induction w generalizing n with
  | zero => simp [toBe]
  | succ w ih => rw [toBe, ih, toBe, Nat.div_div_eq_div_mul, ← pow_succ', cons_append]

/-- **Reading bytes as a number and spelling it again** gives the bytes back. -/
theorem toBe_ofBe (l : List UInt8) : toBe l.length (ofBe l) = l := by
  induction l using reverseRecOn with
  | nil => rfl
  | append_singleton l b ih =>
    have hb := b.toNat_lt
    have hdiv : (ofBe l * 256 + b.toNat) / 256 = ofBe l := by omega
    have hlow : UInt8.ofNat (ofBe l * 256 + b.toNat) = b := by
      rw [← UInt8.toNat_inj, UInt8.toNat_ofNat']
      omega
    rw [ofBe_concat, length_append, length_singleton, toBe_succ_concat, hdiv, hlow, ih]

/-! ### Readers -/

variable {n : ℕ}

/-- The first `n` bytes and the rest. -/
def take (n : ℕ) (b : List UInt8) : Option (List UInt8 × List UInt8) :=
  if n ≤ b.length then some (b.take n, b.drop n) else none

/-- A `w`-byte number off the front. -/
def takeBe (w : ℕ) (b : List UInt8) : Option (ℕ × List UInt8) :=
  (take w b).map fun p => (ofBe p.1, p.2)

/-- One byte off the front. -/
def takeU8 : List UInt8 → Option (UInt8 × List UInt8)
  | [] => none
  | v :: b => some (v, b)

variable (b : List UInt8)

/-- A 16-bit word off the front. -/
def takeU16 : Option (UInt16 × List UInt8) :=
  (takeBe 2 b).map fun p => (UInt16.ofNat p.1, p.2)

/-- A 32-bit word off the front. -/
def takeU32 : Option (UInt32 × List UInt8) :=
  (takeBe 4 b).map fun p => (UInt32.ofNat p.1, p.2)

/-- A 64-bit word off the front. -/
def takeU64 : Option (UInt64 × List UInt8) :=
  (takeBe 8 b).map fun p => (UInt64.ofNat p.1, p.2)

@[simp] theorem takeU8_cons (v : UInt8) (b : List UInt8) : takeU8 (v :: b) = some (v, b) := rfl

theorem take_append (l r : List UInt8) : take l.length (l ++ r) = some (l, r) := by
  simp [take]

/-- **Taking off what was just put in front.** -/
theorem take_append_of_length (h : l.length = n) (r : List UInt8) :
    take n (l ++ r) = some (l, r) := h ▸ take_append l r

theorem takeBe_toBe (w n : ℕ) (r : List UInt8) :
    takeBe w (toBe w n ++ r) = some (n % 256 ^ w, r) := by
  rw [takeBe, take_append_of_length (length_toBe w n), map_some, ofBe_toBe]

@[simp] theorem takeU16_toBe (v : UInt16) (r : List UInt8) :
    takeU16 (toBe 2 v.toNat ++ r) = some (v, r) := by
  rw [takeU16, takeBe_toBe]
  simp

@[simp] theorem takeU32_toBe (v : UInt32) (r : List UInt8) :
    takeU32 (toBe 4 v.toNat ++ r) = some (v, r) := by
  rw [takeU32, takeBe_toBe]
  simp

@[simp] theorem takeU64_toBe (v : UInt64) (r : List UInt8) :
    takeU64 (toBe 8 v.toNat ++ r) = some (v, r) := by
  rw [takeU64, takeBe_toBe]
  simp

variable {b r : List UInt8}

theorem append_of_takeU8 {v : UInt8} (h : takeU8 b = some (v, r)) :
    b = v :: r := by
  cases b with
  | nil => exact absurd h (by simp [takeU8])
  | cons v' b' =>
    cases h
    rfl

theorem append_of_take (h : take n b = some (l, r)) :
    b = l ++ r ∧ l.length = n := by
  rw [take] at h
  split at h
  next hle =>
    cases h
    exact ⟨(take_append_drop n b).symm, length_take_of_le hle⟩
  · cases h

/-- What a reader of numbers took off is the number as it is spelled. -/
theorem append_of_takeBe {w : ℕ} (h : takeBe w b = some (n, r)) :
    b = toBe w n ++ r ∧ n < 256 ^ w := by
  obtain ⟨⟨l, r'⟩, htake, heq⟩ := map_eq_some_iff.mp h
  cases heq
  obtain ⟨rfl, rfl⟩ := append_of_take htake
  exact ⟨by rw [toBe_ofBe], ofBe_lt l⟩

/-- The same where the number becomes a word. -/
theorem append_of_takeWord {α : Type} {w : ℕ} {ofNat : ℕ → α} {toNat : α → ℕ} {v : α}
    (hword : ∀ n < 256 ^ w, toNat (ofNat n) = n)
    (h : ((takeBe w b).map fun p => (ofNat p.1, p.2)) = some (v, r)) :
    b = toBe w (toNat v) ++ r := by
  obtain ⟨⟨n, r'⟩, htake, heq⟩ := map_eq_some_iff.mp h
  cases heq
  obtain ⟨hb, hn⟩ := append_of_takeBe htake
  rw [hb, hword n hn]

theorem append_of_takeU16 {v : UInt16} (h : takeU16 b = some (v, r)) : b = toBe 2 v.toNat ++ r :=
  append_of_takeWord (fun _ => UInt16.toNat_ofNat_of_lt') h

theorem append_of_takeU32 {v : UInt32} (h : takeU32 b = some (v, r)) : b = toBe 4 v.toNat ++ r :=
  append_of_takeWord (fun _ => UInt32.toNat_ofNat_of_lt') h

theorem append_of_takeU64 {v : UInt64} (h : takeU64 b = some (v, r)) : b = toBe 8 v.toNat ++ r :=
  append_of_takeWord (fun _ => UInt64.toNat_ofNat_of_lt') h

end Bytes

/-! ### Arrays of a fixed length -/

/-- An array of `n` bytes. -/
def FixedBytes (n : ℕ) : Type := { l : List UInt8 // l.length = n }

/-- The name of a node, or another key in the space of names. -/
abbrev NodeId : Type := FixedBytes 32

namespace FixedBytes

variable {n : ℕ}

instance : DecidableEq (FixedBytes n) :=
  inferInstanceAs (DecidableEq { l : List UInt8 // l.length = n })

/-- Arrays of bytes compare from their first byte on, as the numbers they spell do
(`Bytes.ofBe_lt_ofBe_iff`). -/
instance : LinearOrder (FixedBytes n) where
  le a b := Bytes.ofBe a.1 ≤ Bytes.ofBe b.1
  le_refl _ := Nat.le_refl _
  le_trans _ _ _ := Nat.le_trans
  le_antisymm a b hab hba := Subtype.ext (by
    rw [← Bytes.toBe_ofBe a.1, ← Bytes.toBe_ofBe b.1, a.2, b.2, Nat.le_antisymm hab hba])
  le_total _ _ := Nat.le_total _ _
  toDecidableLE a b := inferInstanceAs (Decidable (Bytes.ofBe a.1 ≤ Bytes.ofBe b.1))
  toDecidableEq := inferInstance

/-- The same byte throughout. -/
def replicate (n : ℕ) (b : UInt8) : FixedBytes n := ⟨List.replicate n b, List.length_replicate⟩

/-- An array of `n` bytes off the front of a buffer. -/
def read (n : ℕ) (b : List UInt8) : Option (FixedBytes n × List UInt8) :=
  if h : n ≤ b.length then some (⟨b.take n, List.length_take_of_le h⟩, b.drop n) else none

/-- **Reading back what was just put in front.** -/
@[simp] theorem read_append (a : FixedBytes n) (r : List UInt8) :
    read n (a.1 ++ r) = some (a, r) := by
  obtain ⟨l, hl⟩ := a
  have hle : n ≤ (l ++ r).length := by rw [length_append]; omega
  rw [read, dif_pos hle]
  refine congrArg some (Prod.ext (Subtype.ext ?_) ?_)
  · exact take_left' hl
  · exact drop_left' hl

theorem append_of_read {a : FixedBytes n} {b r : List UInt8} (h : read n b = some (a, r)) :
    b = a.1 ++ r := by
  rw [read] at h
  split at h
  · cases h
    exact (take_append_drop n b).symm
  · cases h

end FixedBytes

end VeilNetwork
