import VeilNetwork.Lib.Bytes

/-!
# Decoders that walk a buffer

A decoder takes values off the front of a buffer, one after the other, and stops with an error of
its own where a value is missing or refused. `Cursor.Exact` says all there is to say about one: it
accepts a buffer if and only if the buffer starts with the encoding of a value in range. So it
gives both directions at once, that what is written in range is read back and that what is read is
in range and was written so.
-/

namespace VeilNetwork

open Bytes List

/-- A decoder of values in `α`, with errors in `ε`: what was read, and the rest of the buffer. -/
abbrev Cursor (ε α : Type) : Type := StateT (List UInt8) (Except ε) α

namespace Cursor

variable {ε α β : Type} {p : Cursor ε α} {f : α → Cursor ε β} {buf mid rest : List UInt8} {a : α}
  {b : β} {e : ε}

/-- **A decoder that goes on** accepts what its first part accepts and the rest what is left. -/
theorem bind_eq_ok_iff : (p >>= f) buf = .ok (b, rest) ↔
    ∃ mid a, p buf = .ok (a, mid) ∧ f a mid = .ok (b, rest) := by
  change (p buf >>= fun out => f out.1 out.2) = _ ↔ _
  constructor
  · intro h
    generalize p buf = out at h ⊢
    rcases out with err | ⟨a, mid⟩
    · cases h
    · exact ⟨mid, a, rfl, h⟩
  · rintro ⟨mid, a, hp, hf⟩
    rwa [hp]

theorem pure_eq_ok_iff {a' : α} :
    (pure a : Cursor ε α) buf = .ok (a', rest) ↔ a = a' ∧ buf = rest := by
  constructor
  · intro h
    exact Prod.mk.inj (Except.ok.inj h)
  · rintro ⟨rfl, rfl⟩
    rfl

/-- How much is left. -/
def remaining : Cursor ε ℕ := fun buf => .ok (buf.length, buf)

theorem remaining_eq_ok_iff {n : ℕ} :
    (remaining : Cursor ε ℕ) buf = .ok (n, rest) ↔ buf.length = n ∧ buf = rest := by
  rw [remaining, Except.ok.injEq, Prod.mk.injEq]

/-! ### Refusals -/

/-- Stop where a condition holds. -/
def refuse (c : Prop) [Decidable c] (e : ε) : Cursor ε Unit := fun buf =>
  if c then .error e else .ok ((), buf)

theorem refuse_eq_ok_iff {c : Prop} [Decidable c] {u : Unit} :
    refuse c e buf = .ok (u, rest) ↔ ¬c ∧ buf = rest := by
  rw [refuse]
  split <;> next hc => simp [hc]

/-! ### Exact decoders -/

/-- **What a decoder accepts**: the encodings of the values in range, whatever follows. -/
def Exact (p : Cursor ε α) (encode : α → List UInt8) (Wf : α → Prop) : Prop :=
  ∀ buf a rest, p buf = .ok (a, rest) ↔ buf = encode a ++ rest ∧ Wf a

variable {encode : α → List UInt8} {Wf : α → Prop}

theorem Exact.iff (h : Exact p encode Wf) :
    p buf = .ok (a, rest) ↔ buf = encode a ++ rest ∧ Wf a := h buf a rest

theorem Exact.read (h : Exact p encode Wf) (ha : Wf a) (rest : List UInt8) :
    p (encode a ++ rest) = .ok (a, rest) := (h _ a rest).mpr ⟨rfl, ha⟩

/-- A reader as a decoder, with the error for a buffer that is too short. -/
def ofReader (read : List UInt8 → Option (α × List UInt8)) (e : ε) : Cursor ε α := fun buf =>
  match read buf with
  | some out => .ok out
  | none => .error e

theorem exact_ofReader {read : List UInt8 → Option (α × List UInt8)}
    (hread : ∀ a rest, Wf a → read (encode a ++ rest) = some (a, rest))
    (hwritten : ∀ buf a rest, read buf = some (a, rest) → buf = encode a ++ rest ∧ Wf a) :
    Exact (ofReader read e) encode Wf := by
  intro buf a rest
  refine ⟨fun h => ?_, ?_⟩
  · rw [ofReader] at h
    generalize hout : read buf = out at h
    rcases out with _ | out
    · cases h
    · cases h
      exact hwritten _ _ _ hout
  · rintro ⟨rfl, ha⟩
    rw [ofReader, hread a rest ha]

def readU8 (e : ε) : Cursor ε UInt8 := ofReader Bytes.takeU8 e

def readU16 (e : ε) : Cursor ε UInt16 := ofReader Bytes.takeU16 e

def readU32 (e : ε) : Cursor ε UInt32 := ofReader Bytes.takeU32 e

def readU64 (e : ε) : Cursor ε UInt64 := ofReader Bytes.takeU64 e

def readArray (n : ℕ) (e : ε) : Cursor ε (FixedBytes n) := ofReader (FixedBytes.read n) e

def readBytes (n : ℕ) (e : ε) : Cursor ε (List UInt8) := ofReader (Bytes.take n) e

theorem exact_readU8 : Exact (readU8 e) (fun v => [v]) fun _ => True :=
  exact_ofReader (fun _ _ _ => rfl) fun _ _ _ h => ⟨append_of_takeU8 h, trivial⟩

theorem exact_readU16 : Exact (readU16 e) (fun v => Bytes.toBe 2 v.toNat) fun _ => True :=
  exact_ofReader (fun v rest _ => takeU16_toBe v rest)
    fun _ _ _ h => ⟨append_of_takeU16 h, trivial⟩

theorem exact_readU32 : Exact (readU32 e) (fun v => Bytes.toBe 4 v.toNat) fun _ => True :=
  exact_ofReader (fun v rest _ => takeU32_toBe v rest)
    fun _ _ _ h => ⟨append_of_takeU32 h, trivial⟩

theorem exact_readU64 : Exact (readU64 e) (fun v => Bytes.toBe 8 v.toNat) fun _ => True :=
  exact_ofReader (fun v rest _ => takeU64_toBe v rest)
    fun _ _ _ h => ⟨append_of_takeU64 h, trivial⟩

theorem exact_readArray {n : ℕ} : Exact (readArray n e) (fun v => v.1) fun _ => True :=
  exact_ofReader (fun v rest _ => FixedBytes.read_append v rest)
    fun _ _ _ h => ⟨FixedBytes.append_of_read h, trivial⟩

theorem exact_readBytes {n : ℕ} : Exact (readBytes n e) (fun v => v) fun v => v.length = n :=
  exact_ofReader (fun _ rest hn => take_append_of_length hn rest)
    fun _ _ _ h => append_of_take h

/-- A word of two bytes, as a number. -/
theorem exact_toNat_readU16 : Exact (do let v ← readU16 e; pure v.toNat) (Bytes.toBe 2)
    fun n => n < 256 ^ 2 := by
  intro buf n rest
  simp only [bind_eq_ok_iff, exact_readU16.iff, pure_eq_ok_iff, and_true]
  constructor
  · rintro ⟨_, v, rfl, rfl, rfl⟩
    exact ⟨rfl, v.toNat_lt⟩
  · rintro ⟨rfl, hn⟩
    have hnat : (UInt16.ofNat n).toNat = n := UInt16.toNat_ofNat_of_lt' hn
    exact ⟨rest, UInt16.ofNat n, by rw [hnat], hnat, rfl⟩

/-- A string with its length in front: the length, unless it is refused, and as many bytes. -/
def readSized (len : Cursor ε ℕ) (bad : ℕ → Prop) [DecidablePred bad] (error : ℕ → ε)
    (bytes : ℕ → Cursor ε (List UInt8)) : Cursor ε (List UInt8) := do
  let n ← len
  refuse (bad n) (error n)
  bytes n

/-- **A string is read with its length**, if every length that is not refused fits in `w` bytes. -/
theorem exact_readSized {len : Cursor ε ℕ} {bad : ℕ → Prop} [DecidablePred bad] {error : ℕ → ε}
    {bytes : ℕ → Cursor ε (List UInt8)} {w : ℕ}
    (hlen : Exact len (Bytes.toBe w) fun n => n < 256 ^ w)
    (hbytes : ∀ n, Exact (bytes n) (fun v => v) fun v => v.length = n)
    (hcap : ∀ n, ¬bad n → n < 256 ^ w) :
    Exact (readSized len bad error bytes) (Bytes.sized w) fun v => ¬bad v.length := by
  intro buf v rest
  simp only [readSized, bind_eq_ok_iff, hlen.iff, refuse_eq_ok_iff, (hbytes _).iff, Bytes.sized,
    append_assoc]
  constructor
  · rintro ⟨_, _, ⟨rfl, -⟩, _, _, ⟨hok, rfl⟩, rfl, rfl⟩
    exact ⟨rfl, hok⟩
  · rintro ⟨rfl, hok⟩
    exact ⟨v ++ rest, _, ⟨rfl, hcap _ hok⟩, _, (), ⟨hok, rfl⟩, rfl, rfl⟩

/-- A fixed string of bytes off the front. -/
def readTag (tag : List UInt8) (e : ε) : Cursor ε Unit := fun buf =>
  if buf.take tag.length = tag then .ok ((), buf.drop tag.length) else .error e

theorem readTag_eq_ok_iff {tag : List UInt8} {u : Unit} :
    readTag tag e buf = .ok (u, rest) ↔ buf = tag ++ rest := by
  rw [readTag]
  constructor
  · intro h
    split at h
    next htag =>
      cases h
      have hsplit := take_append_drop tag.length buf
      rw [htag] at hsplit
      exact hsplit.symm
    · cases h
  · rintro rfl
    rw [if_pos (take_left' rfl), drop_left' rfl]

/-- A value `n` times. -/
def times (p : Cursor ε α) : ℕ → Cursor ε (List α)
  | 0 => pure []
  | n + 1 => do
    let a ← p
    let l ← times p n
    pure (a :: l)

/-- **A sequence of values** is decoded one by one. -/
theorem exact_times (h : Exact p encode Wf) (n : ℕ) :
    Exact (times p n) (List.flatMap encode) fun l => l.length = n ∧ ∀ a ∈ l, Wf a := by
  induction n with
  | zero =>
    intro buf l rest
    simp only [times, pure_eq_ok_iff]
    constructor
    · rintro ⟨rfl, rfl⟩
      exact ⟨rfl, rfl, nofun⟩
    · rintro ⟨rfl, hlen, -⟩
      obtain rfl := length_eq_zero_iff.mp hlen
      exact ⟨rfl, rfl⟩
  | succ n ih =>
    intro buf l rest
    simp only [times, bind_eq_ok_iff, h.iff, ih.iff, pure_eq_ok_iff]
    constructor
    · rintro ⟨_, a, ⟨rfl, hwf⟩, _, l, ⟨rfl, rfl, hall⟩, rfl, rfl⟩
      exact ⟨by rw [flatMap_cons, append_assoc], rfl, forall_mem_cons.mpr ⟨hwf, hall⟩⟩
    · rintro ⟨rfl, hlen, hall⟩
      cases l with
      | nil => cases hlen
      | cons a l =>
        obtain ⟨hwf, hall⟩ := forall_mem_cons.mp hall
        rw [flatMap_cons, append_assoc]
        exact ⟨_, a, ⟨rfl, hwf⟩, _, l, ⟨rfl, Nat.succ.inj hlen, hall⟩, rfl, rfl⟩

end Cursor

end VeilNetwork
