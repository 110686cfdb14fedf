import VeilNetwork.OnionStream.Reassembly

/-!
# One direction at its receiver

The receiving half of an endpoint whose peer has written `W`, told only segments of
`W` and the FIN that follows it: what it holds is part of `W`, what it has delivered
is a prefix of `W`, and once it has consumed the FIN it has delivered all of it. Then
the FIN has a sequence number of its own, so `rcvNxt` is one past the end, every
segment lies behind it, and nothing moves any more.
-/

namespace VeilNetwork.OnionStream

open RxState Blocks RxTrace

namespace RxState

variable (taken : List UInt8) (rx : RxState)

/-- How far a direction has come at its receiver: the bytes handed out, the bytes
that wait to be, and the FIN. -/
def progress : ℕ :=
  taken.length + rx.readBuf.length + rx.eof.toNat

/-- A later state of a receiving half. -/
def Follows (taken' : List UInt8) (rx' : RxState) : Prop :=
  rx.progress taken ≤ rx'.progress taken' ∧ (rx.eof = true → rx'.eof = true)

theorem Follows.refl : Follows taken rx taken rx :=
  ⟨le_rfl, id⟩

theorem Follows.trans {t t' t'' : List UInt8} {rx rx' rx'' : RxState}
    (h : Follows t rx t' rx') (h' : Follows t' rx' t'' rx'') : Follows t rx t'' rx'' :=
  ⟨h.1.trans h'.1, fun he => h'.2 (h.2 he)⟩

end RxState

/-- Offset `i` is named `first + i`. -/
theorem RxTrace.pos_base_eq (first : UInt32) (i : ℕ) :
    pos (RxTrace.base first) i = pos first.toNat i := by
  rw [pos_base, pos]
  simp

/-- A receiving half that holds part of `W`, in a direction that starts at `first`. -/
structure Receiving (first : UInt32) (W : List UInt8) (fin : Bool) (taken : List UInt8)
    (B : List (ℕ × List UInt8)) (rx : RxState) : Prop where
  stored : Stored (RxTrace.base first) taken (taken ++ rx.readBuf) B
    ((taken ++ rx.readBuf).length + 1)
    { rx with rcvNxt := pos (RxTrace.base first) (taken ++ rx.readBuf).length }
  size_le : B.length ≤ maxReorderedSegments
  window_lt : rx.window.toNat < 2 ^ 31
  bytes : ∀ i x, content (taken ++ rx.readBuf) B i = some x → W[i]? = some x
  rcvNxt : rx.rcvNxt = pos (RxTrace.base first) (rx.progress taken)
  eof : rx.eof = true → taken ++ rx.readBuf = W ∧ fin = true
  peerFin : ∀ s ∈ rx.peerFinSeq,
    rx.eof = true ∨ fin = true ∧ s = pos (RxTrace.base first) W.length

namespace Receiving

variable {first : UInt32} {W : List UInt8} {fin : Bool} {taken : List UInt8}
  {B : List (ℕ × List UInt8)} {rx : RxState}

section

variable (h : Receiving first W fin taken B rx)

include h

/-- **What was delivered is a prefix of what was written.** -/
theorem isPrefix : taken ++ rx.readBuf <+: W := by
  refine List.prefix_iff_getElem?.mpr fun i hi => h.bytes i _ ?_
  rw [content_of_lt hi, List.getElem?_eq_getElem hi]

theorem length_le :
    (taken ++ rx.readBuf).length ≤ W.length := h.isPrefix.length_le

/-- The FIN comes after the last byte. -/
theorem progress_le : rx.progress taken ≤ W.length + rx.eof.toNat := by
  have := h.length_le
  rw [List.length_append] at this
  exact Nat.add_le_add_right this _

end

theorem progress_eq_of_open (heof : rx.eof = false) :
    rx.progress taken = (taken ++ rx.readBuf).length := by
  rw [progress, heof, List.length_append]
  rfl

/-- Before the end the state is the one the blocks describe. -/
theorem stored_of_open (h : Receiving first W fin taken B rx) (heof : rx.eof = false) :
    Stored (RxTrace.base first) taken (taken ++ rx.readBuf) B
      ((taken ++ rx.readBuf).length + 1) rx := by
  have hst := h.stored
  have hnxt := h.rcvNxt
  rw [progress_eq_of_open heof] at hnxt
  exact ⟨hst.prefix_eq, hnxt, hst.perm, hst.spaced, hst.ooBytes, hst.reach⟩

/-- A fresh receiving half that knows where the direction starts. -/
theorem opened (hbuf : rx.readBuf = []) (hoo : rx.oo = OrdMap.empty) (hbytes : rx.ooBytes = 0)
    (hfin : rx.peerFinSeq = none) (heof : rx.eof = false) (hw : rx.window.toNat < 2 ^ 31)
    (hnxt : rx.rcvNxt = first) : Receiving first W fin [] [] rx := by
  have hname : pos (base first) 0 = first := by
    rw [pos_base]
    exact UInt32.add_zero first
  refine ⟨⟨rfl, rfl, ?_, trivial, hbytes, ?_⟩, Nat.zero_le _, hw, fun i x hx => ?_, ?_,
    fun he => ?_, fun s hs => ?_⟩
  · rw [hoo]
    exact List.Perm.refl _
  · rw [hbuf]
    exact Nat.zero_le _
  · rw [hbuf] at hx
    exact absurd hx (by simp [content, lookup])
  · rw [progress, hbuf, heof, hnxt]
    exact hname.symm
  · rw [heof] at he
    cases he
  · rw [hfin] at hs
    cases hs

/-- **The FIN is consumed only behind the last byte.** -/
theorem tryConsumeFin (h : Receiving first W fin taken B rx) (hW : W.length < 2 ^ 31) :
    Receiving first W fin taken B rx.tryConsumeFin ∧
      Follows taken rx taken rx.tryConsumeFin := by
  rw [RxState.tryConsumeFin]
  split
  next hcond =>
    obtain ⟨hseq, heof⟩ := hcond
    have hle := h.length_le
    rcases h.peerFin _ hseq with he | ⟨hfin, hend⟩
    · rw [heof] at he
      cases he
    -- the FIN's name is that of the first missing byte, so none is missing
    · have hnxt := h.rcvNxt
      rw [progress_eq_of_open heof] at hnxt
      rw [hnxt, pos_inj (by omega) (by omega)] at hend
      have hall : taken ++ rx.readBuf = W := h.isPrefix.eq_of_length hend
      have hprog : rx.progress taken + 1 =
          { rx with rcvNxt := rx.rcvNxt + 1, eof := true }.progress taken := by
        rw [progress, heof]
        rfl
      have hst := h.stored
      refine ⟨⟨⟨hst.prefix_eq, rfl, hst.perm, hst.spaced, hst.ooBytes, hst.reach⟩, h.size_le,
        h.window_lt, h.bytes, ?_, fun _ => ⟨hall, hfin⟩, fun s hs => .inl rfl⟩, ?_, fun _ => rfl⟩
      · rw [← hprog, ← pos_add, ← h.rcvNxt]
        rfl
      · exact (Nat.le_succ _).trans_eq hprog
  · exact ⟨h, Follows.refl _ _⟩

/-- A segment of `W` that starts at offset `o`, seen from the first missing byte. -/
theorem carried_segment {n o : ℕ} {payload : List UInt8} (hseg : SegmentOf W o payload)
    (hn : n ≤ W.length) (hW : W.length < 2 ^ 31) {i : ℕ} {x : UInt8}
    (hx : carried n (pos (RxTrace.base first) o - pos (RxTrace.base first) n).toInt32.toInt payload
      i = some x) : W[i]? = some x := by
  have ho : o ≤ W.length := by
    have := hseg.2
    omega
  have hd : (pos (base first) o - pos (base first) n).toInt32.toInt =
      (o : ℤ) - n := by
    rw [Serial.toInt_toInt32]
    rcases lt_or_ge o n with hon | hon
    · rw [pos, pos, Serial.toNat_ofNat_sub_of_lt (by omega) (by omega)]
      simp only [Int.bmod]
      split <;> omega
    · rw [pos_sub hon (by omega)]
      simp only [Int.bmod]
      split <;> omega
  rw [hd, carried] at hx
  split at hx
  · have hi : i = o + ((i : ℤ) - (n + (o - n))).toNat := by omega
    rw [hi]
    exact hseg.getElem? hx
  · cases hx

section

variable (h : Receiving first W fin taken B rx)

include h

/-- **Accepting a segment of `W`.** -/
theorem accept (hW : W.length < 2 ^ 31) {o : ℕ}
    {payload : List UInt8} (hseg : SegmentOf W o payload) (hne : payload ≠ []) :
    ∃ B', Receiving first W fin taken B' (rx.accept (pos (RxTrace.base first) o) payload).1 ∧
      Follows taken rx taken (rx.accept (pos (RxTrace.base first) o) payload).1 := by
  have hlen := hseg.2
  cases heof : rx.eof with
  | true =>
    -- every segment lies behind a consumed FIN
    have hnxt : rx.rcvNxt = pos (base first) (W.length + 1) := by
      rw [h.rcvNxt, progress, heof, ← List.length_append, (h.eof heof).1]
      rfl
    have hsame : (rx.accept (pos (base first) o) payload).1 = rx := by
      rw [RxState.accept, hnxt, lt_pos (by omega) (by omega),
        if_pos (decide_eq_true (by omega : o < W.length + 1))]
      rw [pos_sub (by omega) (by omega), if_pos (by omega)]
    rw [hsame]
    exact ⟨B, h, Follows.refl _ _⟩
  | false =>
    have hst := h.stored_of_open heof
    obtain ⟨P', B', cut, rx', hst', hacc, hsame, hres⟩ :=
      hst.accept (Nat.le_trans (by decide) (Nat.le_add_left (2 ^ 32) _)) h.window_lt h.size_le hne
        (pos (base first) o)
    obtain rfl : P' = taken ++ rx'.readBuf := hst'.prefix_eq
    have heof' : rx'.eof = false := hsame.eof.trans heof
    have hnxt' := hst'.rcvNxt
    have hmid : Receiving first W fin taken B' rx' := by
      refine ⟨?_, hacc.size_le, ?_, fun i x hx => ?_, ?_, fun he => ?_, fun s hs => ?_⟩
      · rwa [← hnxt']
      · rw [hsame.window]
        exact h.window_lt
      · rw [hacc.content_eq, Option.or_eq_some_iff] at hx
        rcases hx with hx | ⟨-, hx⟩
        · exact h.bytes i x hx
        · split at hx
          · rw [hst.rcvNxt] at hx
            exact carried_segment hseg h.length_le hW hx
          · cases hx
      · rwa [progress_eq_of_open heof']
      · rw [heof'] at he
        cases he
      · rw [hsame.peerFinSeq] at hs
        rcases h.peerFin s hs with he | hend
        · rw [heof] at he
          cases he
        · exact .inr hend
    have hfollow : Follows taken rx taken rx' := by
      refine ⟨?_, fun he => ?_⟩
      · rw [progress_eq_of_open heof, progress_eq_of_open heof']
        exact hacc.length_le
      · rw [heof] at he
        cases he
    rcases hres with ⟨-, hres⟩ | hres
    · rw [hres]
      exact ⟨B', hmid, hfollow⟩
    · rw [hres]
      obtain ⟨hfin, hthen⟩ := hmid.tryConsumeFin hW
      exact ⟨B', hfin, hfollow.trans hthen⟩

/-- **The FIN arrives**, at any time after it was sent. -/
theorem noteFin (hW : W.length < 2 ^ 31) {seq : UInt32}
    (hseq : rx.eof = true ∨ fin = true ∧ seq = pos (RxTrace.base first) W.length) :
    Receiving first W fin taken B { rx with peerFinSeq := some seq }.tryConsumeFin ∧
      Follows taken rx taken { rx with peerFinSeq := some seq }.tryConsumeFin := by
  have hnoted : Receiving first W fin taken B { rx with peerFinSeq := some seq } := by
    refine ⟨?_, h.size_le, h.window_lt, h.bytes, h.rcvNxt, h.eof, fun s hs => ?_⟩
    · have hst := h.stored
      exact ⟨hst.prefix_eq, rfl, hst.perm, hst.spaced, hst.ooBytes, hst.reach⟩
    · cases hs
      exact hseq
  exact hnoted.tryConsumeFin hW

/-- **A read** hands out what was delivered. -/
theorem takeRead (n : ℕ) :
    Receiving first W fin (taken ++ rx.readBuf.take n) B (rx.takeRead n).1 ∧
      Follows taken rx (taken ++ rx.readBuf.take n) (rx.takeRead n).1 := by
  have hsplit : (taken ++ rx.readBuf.take n) ++ (rx.takeRead n).1.readBuf =
      taken ++ rx.readBuf := by
    rw [RxState.takeRead, List.append_assoc, List.take_append_drop]
  have hprog : (rx.takeRead n).1.progress (taken ++ rx.readBuf.take n) = rx.progress taken := by
    rw [progress, progress, ← List.length_append, ← List.length_append, hsplit]
    rfl
  refine ⟨⟨?_, h.size_le, h.window_lt, ?_, ?_, ?_, h.peerFin⟩, hprog.ge, id⟩
  · rw [hsplit]
    exact h.stored.takeRead n
  · rw [hsplit]
    exact h.bytes
  · rw [hprog]
    exact h.rcvNxt
  · rw [hsplit]
    exact h.eof

/-- Advertising a window concerns nothing that was received. -/
theorem advertise (win : UInt32) :
    Receiving first W fin taken B { rx with lastAckWindow := win } := by
  have hst := h.stored
  exact ⟨⟨hst.prefix_eq, rfl, hst.perm, hst.spaced, hst.ooBytes, hst.reach⟩, h.size_le,
    h.window_lt, h.bytes, h.rcvNxt, h.eof, h.peerFin⟩

/-- **The sender goes on**: it writes as long as it has not finished, and finishes. -/
theorem grow {W' : List UInt8} {fin' : Bool}
    (hpre : W <+: W') (hkeep : fin = true → fin' = true ∧ W' = W) :
    Receiving first W' fin' taken B rx := by
  refine ⟨h.stored, h.size_le, h.window_lt, fun i x hx => ?_, h.rcvNxt, fun he => ?_,
    fun s hs => ?_⟩
  · obtain ⟨rest, rfl⟩ := hpre
    obtain ⟨hi, heq⟩ := List.getElem?_eq_some_iff.mp (h.bytes i x hx)
    rw [List.getElem?_append_left hi, List.getElem?_eq_some_iff]
    exact ⟨hi, heq⟩
  · obtain ⟨hall, hfin⟩ := h.eof he
    obtain ⟨hfin', rfl⟩ := hkeep hfin
    exact ⟨hall, hfin'⟩
  · rcases h.peerFin s hs with he | ⟨hfin, hend⟩
    · exact .inl he
    · obtain ⟨hfin', rfl⟩ := hkeep hfin
      exact .inr ⟨hfin', hend⟩

end

end Receiving

end VeilNetwork.OnionStream
