import VeilNetwork.OnionStream.HalfClose
import VeilNetwork.OnionStream.Notes

/-!
# Delivery is credited once

The delivery-rate model keeps a count of the bytes the peer has received. Every
acknowledgement adds to it, from two sources: segments that its selective ranges report
for the first time, and the bytes below its cumulative point. What is in both is
subtracted, and so is the FIN. This file shows that the count is exact: it is the number
of bytes below the cumulative point, with the bytes of the segments that were reported
above it.

A segment's share of the count is its data above the cumulative point, if it was reported
and is not the FIN. The ranges add the shares of the segments they report
(`sackRanges_share`), and a cumulative acknowledgement moves shares below the point
(`retireLoop_share`). The rest follows from the books of the sending half, which say
where in the stream each segment lies.

The count is exact unless an acknowledgement covers a rewound FIN that has not been sent again.
The direction then sends a second FIN (`HalfClose`), and the acknowledgement of that one counts a
byte that does not exist.
-/

namespace VeilNetwork.OnionStream

open Nat OnionStream.Core

open Saturating List UInt32

variable {e e' : StreamEngine} {W : List UInt8}

/-! ### Shares -/

section

variable (una : UInt32)

/-- The data of a reported segment above `una`. -/
def Mark.share (m : Mark) : ℕ :=
  if m.sacked && !m.body.isFin then
    m.body.data.length - (if Seq.lt m.body.seq una then (una - m.body.seq).toNat else 0)
  else 0

/-- The data of the reported segments above `una`. -/
def reported (l : List Mark) : ℕ := (l.map (Mark.share una)).sum

theorem reported_nil : reported una [] = 0 := rfl

theorem reported_cons (m : Mark) (l : List Mark) :
    reported una (m :: l) = m.share una + reported una l := rfl

theorem reported_append (l l' : List Mark) :
    reported una (l ++ l') = reported una l + reported una l' := by
  rw [reported, map_append, List.sum_append]
  rfl

end

section Shares

variable {base : ℕ} {a z una k : ℕ} {m : Mark} {l : List Seg}

theorem pos_sub_pos {i j : ℕ} (h : i ≤ j) : pos base j - pos base i = UInt32.ofNat (j - i) := by
  have hadd := pos_add base i (j - i)
  rw [Nat.add_sub_cancel' h] at hadd
  rw [← hadd, UInt32.add_comm, UInt32.add_sub_cancel]

/-- The share of a segment, by offsets. -/
theorem Tile.share_pos (h : Tile base W a m.body) (hk : k < a + 2 ^ 31)
    (hend : a + m.body.len ≤ k + 2 ^ 31) : m.share (pos base k) =
      if m.sacked && !m.body.isFin then a + m.body.len - max a k else 0 := by
  rw [Mark.share]
  split
  next hm =>
    have hfin : m.body.isFin = false := by simpa using (Bool.and_eq_true_iff.mp hm).2
    have hlen := Body.len_eq hfin
    have hpos := h.len_pos
    rw [h.seq, lt_pos (by omega) (by omega)]
    split
    next hlt =>
      have hlt := of_decide_eq_true hlt
      rw [pos_sub hlt.le (by omega)]
      omega
    next hge =>
      have hge := of_decide_eq_false (Bool.eq_false_iff.mpr hge)
      omega
  · rfl

/-- What the code adds for a segment that counts. -/
theorem Tile.counted {b : Body} (h : Tile base W a b) (hnear : una < a + 2 ^ 31)
    (hend : a + b.len ≤ una + 2 ^ 31) (counts : Bool) (n : UInt32) :
    (if counts && Seq.gt b.stop (pos base una) then
        n + (b.stop - Seq.max b.seq (pos base una)) else n) =
      n + UInt32.ofNat (if counts then a + b.len - max a una else 0) := by
  have hpos := h.len_pos
  rw [h.stop, h.seq, max_pos (by omega) (by omega), gt_pos (by omega) (by omega)]
  cases counts with
  | false => exact (UInt32.add_zero _).symm
  | true =>
    simp only [Bool.true_and, decide_eq_true_eq, if_true]
    split
    · rw [pos_sub_pos (by omega)]
    · rw [show a + b.len - max a una = 0 by omega]
      exact (UInt32.add_zero _).symm

/-- Above both points a segment counts in full. -/
theorem reported_eq (h : Tiles base W a (l.map Seg.body) z) (huk : una ≤ k) (hka : k ≤ a)
    (hz : z ≤ una + 2 ^ 31) :
    reported (pos base una) (l.map Seg.mark) = reported (pos base k) (l.map Seg.mark) := by
  induction l generalizing a with
  | nil => rw [map_nil, reported_nil, reported_nil]
  | cons s l ih =>
    obtain ⟨hs, hl⟩ := h
    have hle : a + s.mark.body.len ≤ z := hl.le
    rw [map_cons, reported_cons, reported_cons, ih hl (by omega),
      hs.share_pos (by omega) (by omega), hs.share_pos (by omega) (by omega),
      max_eq_left hka, max_eq_left (huk.trans hka)]

/-- The reported data is at most the data in flight. -/
theorem reported_le (h : Tiles base W a (l.map Seg.body) z) (hnear : una < a + 2 ^ 31)
    (hz : z ≤ una + 2 ^ 31) :
    reported (pos base una) (l.map Seg.mark) ≤ z - max a una := by
  induction l generalizing a with
  | nil => exact zero_le _
  | cons s l ih =>
    obtain ⟨hs, hl⟩ := h
    have hle : a + s.mark.body.len ≤ z := hl.le
    have hrest := ih hl (by omega)
    rw [map_cons, reported_cons, hs.share_pos (by omega) (by omega)]
    have hlen : s.body.len = s.mark.body.len := rfl
    rw [hlen] at hrest
    split <;> omega

namespace StreamEngine.AckContext

variable (c : AckContext)

section

variable (hold : c.oldUna = pos base una)

include hold

/-- A range that reports a segment adds its share. -/
theorem sackSeg_share {s : Seg} (h : Tile base W a s.body) (hnear : una < a + 2 ^ 31)
    (hend : a + s.body.len ≤ una + 2 ^ 31) (r : SackRange) (acc : AckEvidence) :
    ∃ v, (c.sackSeg r s acc).2.newlyDelivered = acc.newlyDelivered + UInt32.ofNat v ∧
      (c.sackSeg r s acc).2.sackedOverlap = acc.sackedOverlap ∧
      (c.sackSeg r s acc).1.mark.share (pos base una) = s.mark.share (pos base una) + v := by
  rw [sackSeg]
  split
  next hmatch =>
    simp only [Bool.and_eq_true, Bool.not_eq_true'] at hmatch
    have hunsacked : s.mark.sacked = false := hmatch.1.1.2
    have hzero : s.mark.share (pos base una) = 0 := by
      rw [Mark.share, hunsacked, Bool.false_and, if_neg Bool.false_ne_true]
    -- what it adds is what the segment's share becomes
    have hs : Tile base W a ({ s.mark with sacked := true } : Mark).body := h
    have hcount := h.counted hnear hend (!s.isFin) acc.newlyDelivered
    refine ⟨Mark.share (pos base una) { s.mark with sacked := true }, ?_, ?_, ?_⟩
    · rw [hs.share_pos hnear hend]
      refine Eq.trans ?_ hcount
      rw [← hold, ← apply_ite AckEvidence.newlyDelivered _ { acc with newlyDelivered := _ } acc]
      dsimp only
      split <;> split <;> rfl
    · split <;> split <;> split <;> rfl
    · rw [hzero, zero_add]
      rfl
  · exact ⟨0, (UInt32.add_zero _).symm, rfl, rfl⟩

theorem sackRange_share (h : Tiles base W a (l.map Seg.body) z)
    (hnear : una < a + 2 ^ 31) (hz : z ≤ una + 2 ^ 31) (r : SackRange) (acc : AckEvidence) :
    ∃ v, (c.sackRange r l acc).2.newlyDelivered = acc.newlyDelivered + UInt32.ofNat v ∧
      (c.sackRange r l acc).2.sackedOverlap = acc.sackedOverlap ∧
      reported (pos base una) ((c.sackRange r l acc).1.map Seg.mark) =
        reported (pos base una) (l.map Seg.mark) + v := by
  induction l generalizing a acc with
  | nil => exact ⟨0, (UInt32.add_zero _).symm, rfl, rfl⟩
  | cons s l ih =>
    obtain ⟨hs, hl⟩ := h
    have hle : a + s.body.len ≤ z := hl.le
    obtain ⟨v, hv, hover, hshare⟩ := c.sackSeg_share hold hs hnear (by omega) r acc
    obtain ⟨v', hv', hover', hrest⟩ := ih hl (by omega) (c.sackSeg r s acc).2
    refine ⟨v + v', ?_, hover'.trans hover, ?_⟩
    · rw [sackRange]
      rw [hv', hv, UInt32.add_assoc, ← UInt32.ofNat_add]
    · rw [sackRange, map_cons, map_cons, reported_cons, reported_cons, hshare, hrest]
      omega

/-- **The ranges** add the shares of the segments they report. -/
theorem sackRanges_share (h : Tiles base W a (l.map Seg.body) z)
    (hnear : una < a + 2 ^ 31) (hz : z ≤ una + 2 ^ 31) (rs : List SackRange) (acc : AckEvidence) :
    ∃ v, (c.sackRanges rs l acc).2.newlyDelivered = acc.newlyDelivered + UInt32.ofNat v ∧
      (c.sackRanges rs l acc).2.sackedOverlap = acc.sackedOverlap ∧
      reported (pos base una) ((c.sackRanges rs l acc).1.map Seg.mark) =
        reported (pos base una) (l.map Seg.mark) + v := by
  induction rs generalizing l acc with
  | nil => exact ⟨0, (UInt32.add_zero _).symm, rfl, rfl⟩
  | cons r rs ih =>
    obtain ⟨v, hv, hover, hfirst⟩ := c.sackRange_share hold h hnear hz r acc
    rw [← c.map_body_sackRange r l acc] at h
    obtain ⟨v', hv', hover', hrest⟩ := ih h (c.sackRange r l acc).2
    refine ⟨v + v', ?_, hover'.trans hover, ?_⟩
    · rw [sackRanges]
      rw [hv', hv, UInt32.add_assoc, ← UInt32.ofNat_add]
    · rw [sackRanges]
      rw [hrest, hfirst, add_assoc]

/-- A segment that is retired gives up its share. -/
theorem retireSeg_share {s : Seg} (h : Tile base W a s.body)
    (hnear : una < a + 2 ^ 31) (hend : a + s.body.len ≤ una + 2 ^ 31) (acc : AckEvidence) :
    (c.retireSeg s acc).newlyDelivered = acc.newlyDelivered ∧
      (c.retireSeg s acc).sackedOverlap =
        acc.sackedOverlap + UInt32.ofNat (s.mark.share (pos base una)) := by
  have htiming (acc : AckEvidence) : (c.retireTiming s acc).newlyDelivered = acc.newlyDelivered ∧
      (c.retireTiming s acc).sackedOverlap = acc.sackedOverlap := by
    rw [retireTiming]
    split
    · exact ⟨rfl, rfl⟩
    · dsimp only
      split <;> split <;> try split
      all_goals exact ⟨rfl, rfl⟩
  have hs : Tile base W a s.mark.body := h
  have hcount := h.counted hnear hend (s.sacked && !s.isFin) acc.sackedOverlap
  rw [hs.share_pos hnear hend]
  refine ⟨?_, Eq.trans ?_ hcount⟩
  · rw [retireSeg]
    split <;> refine (htiming _).1.trans ?_ <;> split <;> rfl
  · rw [retireSeg, ← hold]
    split <;> refine (htiming _).2.trans (apply_ite AckEvidence.sackedOverlap _ _ _)

/-- A partly covered front segment gives up the part below the point. -/
theorem partialOverlap_share {s : Seg} (hack : c.ack = pos base k)
    (h : Tile base W a s.body) (huk : una ≤ k) (hku : k < una + 2 ^ 31) (hcut : k < a + s.body.len)
    (hend : a + s.body.len ≤ una + 2 ^ 31) (hnear : una < a + 2 ^ 31) (acc : AckEvidence) :
    ∃ v, (c.partialOverlap (s :: l) acc).sackedOverlap = acc.sackedOverlap + UInt32.ofNat v ∧
      (c.partialOverlap (s :: l) acc).newlyDelivered = acc.newlyDelivered ∧
      s.mark.share (pos base una) = v + s.mark.share (pos base k) ∧
      v ≤ min k W.length - max a una := by
  have hlen := h.len_lt
  have hpos := h.len_pos
  have hs : Tile base W a s.mark.body := h
  rw [AckContext.partialOverlap, head?_cons, hold, hack, hs.share_pos hnear hend,
    hs.share_pos (by omega) (by show a + s.body.len ≤ _; omega)]
  dsimp only
  rw [show s.seq = pos base a from h.seq, max_pos (by omega) (by omega),
    gt_pos (by omega) (by omega)]
  show ∃ v, _ ∧ _ ∧ (if s.sacked && !s.isFin then a + s.body.len - max a una else 0) =
    v + (if s.sacked && !s.isFin then a + s.body.len - max a k else 0) ∧ _
  cases hcounts : s.sacked && !s.isFin with
  | false => exact ⟨0, (UInt32.add_zero _).symm, rfl, rfl, zero_le _⟩
  | true =>
    have hfin : s.isFin = false := by simpa using (Bool.and_eq_true_iff.mp hcounts).2
    have hdata := h.le_length hfin
    simp only [Bool.true_and, decide_eq_true_eq, if_true]
    split
    next hlt => exact ⟨k - max a una, by rw [pos_sub_pos hlt.le], rfl, by omega, by omega⟩
    · exact ⟨0, (UInt32.add_zero _).symm, rfl, by omega, zero_le _⟩

/-- **A cumulative acknowledgement** subtracts what the ranges had reported below it. -/
theorem retireLoop_share (hack : c.ack = pos base k) (h : Tiles base W a (l.map Seg.body) z)
    (huk : una ≤ k) (hku : k < una + 2 ^ 31) (hz : z < una + 2 ^ 31) (hnear : una < a + 2 ^ 31)
    (hlive : ∀ s ∈ l.head?, una < a + s.body.len) (acc : AckEvidence) :
    ∃ v, (c.partialOverlap (c.retireLoop l acc).1 (c.retireLoop l acc).2).sackedOverlap =
        acc.sackedOverlap + UInt32.ofNat v ∧
      (c.partialOverlap (c.retireLoop l acc).1 (c.retireLoop l acc).2).newlyDelivered =
        acc.newlyDelivered ∧
      reported (pos base una) (l.map Seg.mark) =
        v + reported (pos base k) ((c.retireLoop l acc).1.map Seg.mark) ∧
      v ≤ min k W.length - max a una := by
  induction l generalizing a acc with
  | nil => exact ⟨0, (UInt32.add_zero _).symm, rfl, rfl, zero_le _⟩
  | cons s l ih =>
    obtain ⟨hs, hl⟩ := h
    have hle : a + s.body.len ≤ z := hl.le
    have hlive := hlive s rfl
    rw [retireLoop, ← Seg.stop_body, hs.stop, hack, leq_pos (by omega) (by omega)]
    by_cases hcut : a + s.body.len ≤ k
    · rw [if_pos (decide_eq_true hcut)]
      obtain ⟨hnew, hover⟩ := c.retireSeg_share hold hs hnear (by omega) acc
      obtain ⟨v, h₁, h₂, h₃, h₄⟩ := ih hl (by omega) (fun s' hs' => by omega) (c.retireSeg s acc)
      have hs' : Tile base W a s.mark.body := hs
      have hshare := hs'.share_pos hnear (by show a + s.body.len ≤ _; omega)
      refine ⟨s.mark.share (pos base una) + v, ?_, h₂.trans hnew, ?_, ?_⟩
      · rw [h₁, hover, UInt32.add_assoc, ← UInt32.ofNat_add]
      · rw [map_cons, reported_cons, h₃, add_assoc]
      · -- a segment of data lies within the stream
        rw [hshare]
        split
        next hcounts =>
          have hfin : s.mark.body.isFin = false := by
            simpa using (Bool.and_eq_true_iff.mp hcounts).2
          have hdata := hs'.le_length hfin
          have hmark : s.mark.body.len = s.body.len := rfl
          omega
        · omega
    · rw [if_neg (by simpa using hcut)]
      obtain ⟨v, h₁, h₂, h₃, h₄⟩ := c.partialOverlap_share (l := l) hold hack hs huk hku
        (by omega) (by omega) hnear acc
      refine ⟨v, h₁, h₂, ?_, h₄⟩
      rw [map_cons, reported_cons, reported_cons, h₃, add_assoc,
        reported_eq hl huk (by omega) (by omega)]

end

end StreamEngine.AckContext

end Shares

/-! ### One acknowledgement -/

namespace Core

/-- The bytes written that the cumulative point does not cover. -/
def unacknowledged (c : Core) : List UInt8 := requeued c.sndUna c.segs ++ c.pending

end Core

section Acknowledged

variable {base : ℕ} {una nxt k : ℕ} {high : Option ℕ} {c : Core} {ack : UInt32} {sacks : SackVec}

theorem Accounts.unacknowledged_eq (h : Accounts base W una nxt high c) :
    c.unacknowledged = W.drop una := by
  obtain ⟨a, ha, htiles, hlive⟩ := h.flight
  have hnxt := h.nxt_lt
  rw [unacknowledged, h.pending, h.sndUna,
    htiles.requeued h.una_le (by omega) (htiles.near h.una_le hlive), max_eq_right ha]

/-- The FIN is acknowledged by the acknowledgement of the offset after the last byte. -/
theorem FinBooks.finAcked_iff (h : FinBooks 0 W una nxt high c)
    (hacc : Accounts base W una nxt high c) (hk : una < k) (htop : k ≤ topOffset nxt high)
    (hcond : ¬c.AcksRewoundFin (pos base k)) :
    c.finAcked = false ∧ ((c.advance (pos base k)).finAcked = true ↔ k = W.length + 1) := by
  have hle := h.topOffset_le
  have hafter := h.advance hacc hk htop le_rfl fun hcov => absurd hcov hcond
  refine ⟨?_, fun hacked => ?_, ?_⟩
  · refine Bool.eq_false_iff.mpr fun hacked => ?_
    have := (h.acked hacked).1
    omega
  · have := (hafter.acked hacked).1
    omega
  · rintro rfl
    by_contra hacked
    have := hafter.unacked (Bool.eq_false_iff.mpr hacked)
    omega

/-- The bytes the peer is known to have: those below the cumulative point, and those of
the segments reported above it. -/
def StreamEngine.received (e : StreamEngine) (W : List UInt8) : ℕ :=
  W.length - e.tx.core.unacknowledged.length + reported e.tx.sndUna e.notes.marks

theorem StreamEngine.credit_ofNat {v : ℕ} (hbbr : e.cfg.bbr = true) (hv : v < 2 ^ 32)
    (hle : e.notes.credited ≤ u64Max) :
    e.credit (UInt32.ofNat v) = min (e.notes.credited + v) u64Max := by
  have hnat : (ofNat v).toNat = v := toNat_ofNat_of_lt' hv
  rw [credit]
  by_cases hzero : v = 0
  · have hnone : ¬(e.cfg.bbr = true ∧ 0 < ofNat 0) := fun h => absurd h.2 (by decide)
    rw [hzero, if_neg hnone, add_zero, min_eq_left hle]
  · rw [if_pos ⟨hbbr, lt_iff_toNat_lt.mpr (by rw [hnat]; exact Nat.pos_of_ne_zero hzero)⟩,
      hnat]
    rfl

theorem sub32_ofNat {x y : ℕ} (hx : x < 2 ^ 32) (hy : y < 2 ^ 32) :
    sub32 (UInt32.ofNat x) (UInt32.ofNat y) = UInt32.ofNat (x - y) := by
  rw [sub32, toNat_ofNat_of_lt' hx, toNat_ofNat_of_lt' hy]

section

variable (h : Accounts base W una nxt high e.tx.core)

include h

theorem Accounts.received_eq (hle : una ≤ W.length) :
    e.received W = una + reported (pos base una) e.notes.marks := by
  rw [StreamEngine.received, h.unacknowledged_eq, show e.tx.sndUna = pos base una from h.sndUna,
    length_drop]
  omega

open StreamEngine in
/-- What the ranges of an acknowledgement report, by offsets. -/
theorem Accounts.ranges_reported {ctx : AckContext} {acc : AckEvidence}
    (hold : ctx.oldUna = e.tx.sndUna) (rs : List SackRange) :
    ∃ v, (ctx.sackRanges rs e.tx.segs acc).2.newlyDelivered =
        acc.newlyDelivered + UInt32.ofNat v ∧
      (ctx.sackRanges rs e.tx.segs acc).2.sackedOverlap = acc.sackedOverlap ∧
      reported (pos base una) ((ctx.sackRanges rs e.tx.segs acc).1.map Seg.mark) =
        reported (pos base una) e.notes.marks + v ∧
      reported (pos base una) ((ctx.sackRanges rs e.tx.segs acc).1.map Seg.mark) ≤ nxt - una := by
  obtain ⟨a, ha, htiles, hlive⟩ := h.flight
  have hnxt := h.nxt_lt
  have hnear := htiles.near h.una_le hlive
  obtain ⟨v, hv, hover, hrep⟩ := ctx.sackRanges_share (hold.trans h.sndUna) htiles hnear
    (by omega) rs acc
  have htiles' : Tiles base W a ((ctx.sackRanges rs e.tx.segs acc).1.map Seg.body) nxt := by
    rwa [ctx.map_body_sackRanges]
  have hbound := reported_le htiles' hnear hnxt.le
  rw [max_eq_right ha] at hbound
  exact ⟨v, hv, hover, hrep, hbound⟩

open StreamEngine in
/-- **The cumulative point** of an acknowledgement is credited with what it covers and no
range had reported. -/
theorem Accounts.newlyDelivered_eq (hfin : FinBooks 0 W una nxt high e.tx.core) (hk : una < k)
    (htop : k ≤ topOffset nxt high) (hcond : ¬e.tx.core.AcksRewoundFin (pos base k))
    {ctx : AckContext} {acc : AckEvidence} (hack : ctx.ack = pos base k)
    (hold : ctx.oldUna = pos base una) (hover : acc.sackedOverlap = 0) :
    ∃ v, (e.ackCumulative ctx acc).2.newlyDelivered =
        acc.newlyDelivered + UInt32.ofNat (min k W.length - una - v) ∧
      v ≤ min k W.length - una ∧ reported (pos base una) e.notes.marks =
        v + reported (pos base k)
          (e.notes.marks.dropWhile fun m => Seq.leq m.body.stop (pos base k)) := by
  obtain ⟨a, ha, htiles, hlive⟩ := h.flight
  have hnxt := h.nxt_lt
  have htop' := h.topOffset_lt
  have hle := hfin.topOffset_le
  have hnear := htiles.near h.una_le hlive
  have hlive' : ∀ s ∈ e.tx.segs.head?, una < a + s.body.len := by
    intro s hs
    refine hlive s.body ?_
    rw [show e.tx.core.segs = e.tx.segs.map Seg.body from rfl, head?_map, hs]
    rfl
  obtain ⟨v, h₁, h₂, h₃, h₄⟩ := ctx.retireLoop_share hold hack htiles hk.le (by omega) hnxt hnear
    hlive' { acc with finAcked := e.tx.finAcked }
  rw [AckContext.fst_retireLoop, hack] at h₃
  refine ⟨v, ?_, ?_, ?_⟩
  · have hadvance : (e.ackAdvance ctx acc).1.tx.finAcked =
        (e.tx.core.advance (pos base k)).finAcked := by
      rw [← hack]
      exact congrArg (fun view => view.core.finAcked) (view_ackAdvance e ctx acc)
    obtain ⟨hwas, hiff⟩ := hfin.finAcked_iff h hk htop hcond
    have hwas : e.tx.finAcked = false := hwas
    have hone : (if !e.tx.finAcked && (e.ackAdvance ctx acc).1.tx.finAcked then (1 : UInt32)
        else 0) = ofNat (k - min k W.length) := by
      rw [hwas, hadvance]
      by_cases hend : k = W.length + 1
      · rw [hiff.mpr hend, show k - min k W.length = 1 by omega]
        rfl
      · rw [Bool.eq_false_iff.mpr fun hacked => hend (hiff.mp hacked),
          show k - min k W.length = 0 by omega]
        rfl
    have hacked : ctx.ack - e.tx.sndUna = ofNat (k - una) := by
      rw [hack, show e.tx.sndUna = pos base una from h.sndUna, pos_sub_pos hk.le]
    have hover' : (e.ackAdvance ctx acc).2.sackedOverlap = ofNat v := by
      refine h₁.trans ?_
      rw [hover, UInt32.zero_add]
    show (e.ackAdvance ctx acc).2.newlyDelivered + sub32 (sub32 (ctx.ack - e.tx.sndUna)
      (e.ackAdvance ctx acc).2.sackedOverlap) (if !e.tx.finAcked &&
        (e.ackAdvance ctx acc).1.tx.finAcked then 1 else 0) = _
    rw [hone, hacked, hover',
      show (e.ackAdvance ctx acc).2.newlyDelivered = acc.newlyDelivered from h₂,
      sub32_ofNat (by omega) (by omega),
      sub32_ofNat (by omega) (by omega)]
    congr 2
    omega
  · rwa [max_eq_right ha] at h₄
  · rw [show e.notes.marks = e.tx.segs.map Seg.mark from rfl, h₃, dropWhile_map]
    rfl

open StreamEngine in
/-- **Every acknowledgement is credited with what it newly covers**, unless it covers a
rewound FIN. -/
theorem credited_of_acks (hfin : FinBooks 0 W una nxt high e.tx.core) (hbbr : e.cfg.bbr = true)
    (hlimit : Seq.gt ack e.tx.ackLimit = false) (hcond : ¬e.tx.core.AcksRewoundFin ack)
    (hacks : Acks ack sacks e e') (hcount : e.notes.credited = min (e.received W) u64Max) :
    e'.notes.credited = min (e'.received W) u64Max := by
  obtain ⟨e₂, ctx, acc, hack, hold, hnew, hover, hcore₂, hmarks₂, hcases⟩ := hacks.exists_stages
  have hle₁ := hfin.topOffset_le
  have htop₁ := h.topOffset_lt
  have hcap : e.notes.credited ≤ u64Max := hcount ▸ min_le_right _ _
  obtain ⟨v, hv, hover₁, hrep, hbound⟩ := h.ranges_reported hold sacks.ranges
  rw [hnew, UInt32.zero_add] at hv
  rcases hcases with ⟨hgt, hcore, hnotes⟩ | ⟨-, hcore, hnotes⟩
  · -- the cumulative point moves to offset `k`
    obtain ⟨k, rfl, hk, htop⟩ := h.ack_eq ⟨_, ackLimit_mem e.tx, hlimit⟩ hgt
    have h₂ : Accounts base W una nxt high e₂.tx.core := by rw [hcore₂]; exact h
    have hfin₂ : FinBooks 0 W una nxt high e₂.tx.core := by rw [hcore₂]; exact hfin
    obtain ⟨w, hw, hwle, hrep'⟩ := h₂.newlyDelivered_eq hfin₂ hk htop (by rw [hcore₂]; exact hcond)
      hack (hold.trans h.sndUna) (hover₁.trans hover)
    rw [hv, ← ofNat_add] at hw
    have hafter := (h.advance hk htop).unacknowledged_eq
    have hcredited : e'.notes.credited = e.credit
        (e₂.ackCumulative ctx (ctx.sackRanges sacks.ranges e.tx.segs acc).2).2.newlyDelivered := by
      rw [hnotes]
    have hmarks : e'.notes.marks =
        e₂.notes.marks.dropWhile fun m => Seq.leq m.body.stop (pos base k) := by rw [hnotes]
    have hund : e'.tx.sndUna = pos base k := by
      rw [show e'.tx.sndUna = e'.tx.core.sndUna from rfl, hcore, sndUna_advance]
    rw [hcredited, hw, credit_ofNat hbbr (by omega) hcap, hcount, h.received_eq (by omega),
      received, hcore, hafter, hmarks, hund, length_drop]
    rw [hmarks₂] at hrep'
    rw [hmarks₂]
    omega
  · have hcredited : e'.notes.credited =
        e.credit (ctx.sackRanges sacks.ranges e.tx.segs acc).2.newlyDelivered := by rw [hnotes]
    have hmarks : e'.notes.marks = e₂.notes.marks := by rw [hnotes]
    have hund : e'.tx.sndUna = e.tx.sndUna := congrArg sndUna hcore
    rw [hcredited, hv, credit_ofNat hbbr (by omega) hcap, hcount, received, received, hcore, hmarks,
      hmarks₂, hund, show e.tx.sndUna = pos base una from h.sndUna, hrep]
    omega

end

end Acknowledged

/-! ### Every run -/

theorem Core.requeued_append (una : UInt32) (l l' : List Body) :
    Core.requeued una (l ++ l') = Core.requeued una l ++ Core.requeued una l' :=
  flatMap_append

/-- Cutting a segment off the queue leaves the bytes not acknowledged as they are. -/
theorem Core.unacknowledged_sendData {c : Core} (hlt : Seq.lt c.sndNxt c.sndUna = false) (n : ℕ) :
    (c.sendData n).unacknowledged = c.unacknowledged := by
  have hone : requeued c.sndUna [⟨c.sndNxt, c.pending.take n, false⟩] = c.pending.take n := by
    simp [requeued, hlt]
  show requeued c.sndUna (c.segs ++ [⟨c.sndNxt, c.pending.take n, false⟩]) ++
    c.pending.drop n = _
  rw [requeued_append, hone, append_assoc, take_append_drop]
  rfl

theorem reported_eq_length (una : UInt32) (segs : List Seg) : reported una (segs.map Seg.mark) =
    (TxState.requeued una (segs.filter Seg.sacked)).length := by
  induction segs with
  | nil => rfl
  | cons s l ih =>
    rw [map_cons, reported_cons, ih, filter_cons]
    show (if s.sacked && !s.isFin then _ else 0) + _ = _
    cases s.sacked with
    | false => rw [Bool.false_and, if_neg Bool.false_ne_true, if_neg Bool.false_ne_true, zero_add]
    | true =>
      rw [if_pos rfl, TxState.requeued, TxState.requeued, flatMap_cons, length_append]
      cases hfin : s.isFin with
      | true => rfl
      | false =>
        rw [if_neg Bool.false_ne_true, length_drop]
        rfl

/-- What the peer is known to have depends on the bytes and the shares only. -/
theorem StreamEngine.received_congr (hcore : e'.tx.core = e.tx.core)
    (hmarks : e'.notes.marks.map (Mark.share e.tx.sndUna) =
      e.notes.marks.map (Mark.share e.tx.sndUna)) : e'.received W = e.received W := by
  rw [received, received, hcore, reported, reported, show e'.tx.sndUna = e.tx.sndUna from
    congrArg sndUna hcore, hmarks]

namespace Trace

open StreamEngine

/-- The count of a delivery model that is on is exact. -/
structure Credits (first : UInt32) (t : Trace) : Prop where
  books : Closing 0 first t.written t.engine.view
  bbr : t.engine.cfg.bbr = true
  count : t.engine.notes.credited = min (t.engine.received t.written) u64Max

variable {first : UInt32} {t : Trace}

/-- A timer credits nothing: it only rewinds a flight of which nothing was reported. -/
theorem received_of_expires (h : Expires e e') :
    e'.received W = e.received W ∧ e'.notes.credited = e.notes.credited := by
  obtain ⟨new, -, ⟨hcore, hnotes⟩ | ⟨hsegs, hcore, hnotes⟩⟩ := h
  · exact ⟨received_congr hcore (by rw [hnotes]), by rw [hnotes]⟩
  · refine ⟨?_, by rw [hnotes]⟩
    have hnone (l : List Seg) (hl : ∀ s ∈ l, s.sacked = false) (una : UInt32) :
        reported una (l.map Seg.mark) = 0 := by
      rw [reported_eq_length, filter_eq_nil_iff.mpr fun s hs => by simp [hl s hs]]
      rfl
    rw [received, received, hcore, show e'.notes.marks = [] by rw [hnotes],
      show e.notes.marks = e.tx.segs.map Seg.mark from rfl,
      hnone e.tx.segs fun s hs => (hsegs.2 s hs).1]
    rfl

/-- Sending credits nothing. -/
theorem received_of_sends (hlt : Seq.lt e.tx.core.sndNxt e.tx.core.sndUna = false) (h : Sends e e') :
    e'.received W = e.received W ∧ e'.notes.credited = e.notes.credited := by
  cases h with
  | none duplicate _ hcore hnotes => exact ⟨received_congr hcore (by rw [hnotes]), by rw [hnotes]⟩
  | again l₁ m l₂ hmarks hcore hnotes =>
    refine ⟨?_, by rw [hnotes]⟩
    rw [received, received, hcore, hnotes, hmarks, reported_append, reported_append,
      show e'.tx.sndUna = e.tx.sndUna from congrArg sndUna hcore]
    rfl
  | data n hcore hnotes =>
    refine ⟨?_, by rw [hnotes]⟩
    rw [received, hcore, unacknowledged_sendData hlt, hnotes, reported_append,
      show e'.tx.sndUna = e.tx.sndUna from congrArg sndUna hcore]
    rfl
  | fin hcore hnotes =>
    refine ⟨?_, by rw [hnotes]⟩
    have hunack : e.tx.core.sendFin.unacknowledged = e.tx.core.unacknowledged := by
      show requeued _ (e.tx.core.segs ++ [⟨_, [], true⟩]) ++ _ = _
      rw [requeued_append, show requeued _ [⟨_, [], true⟩] = [] from rfl, append_nil]
      rfl
    rw [received, hcore, hunack, hnotes, reported_append,
      show e'.tx.sndUna = e.tx.sndUna from congrArg sndUna hcore]
    rfl

theorem cfg_step (t : Trace) (op : Op) : (t.step op).engine.cfg = t.engine.cfg := by
  rcases t.step_cases op with ⟨hmoves, -⟩ | ⟨data, -, -, -, hv, -⟩ | ⟨n, hmoves, -⟩
  · exact hmoves.keeps.2.1
  · exact congrArg View.cfg hv
  · exact hmoves.keeps.2.1

/-- **Every call keeps the count exact**, unless it covers a rewound FIN. -/
theorem Credits.step (h : t.Credits first) {op : Op}
    (hcond : t.engine.coversRewoundFin op = false) : (t.step op).Credits first := by
  have hbooks := h.books.step_of_not_covers hcond
  refine ⟨hbooks, ?_, ?_⟩
  · rw [← h.bbr]
    exact congrArg Config.bbr (cfg_step t op)
  have hcount := h.count
  have hsame {e' : StreamEngine} {W : List UInt8} (hw : W = t.written)
      (hreceived : e'.received t.written = t.engine.received t.written)
      (hcredited : e'.notes.credited = t.engine.notes.credited) :
      e'.notes.credited = min (e'.received W) u64Max := by
    rw [hw, hcredited, hcount, hreceived]
  -- a call that maps the flight without touching reports or bytes
  have hmap {e' : StreamEngine} {f : Seg → Seg} (hc : e'.tx.core = t.engine.tx.core)
      (hm : e'.notes.marks = (t.engine.tx.segs.map f).map Seg.mark)
      (hf : ∀ s, (f s).mark.sacked = s.mark.sacked ∧ (f s).mark.body = s.mark.body) :
      e'.received t.written = t.engine.received t.written := by
    refine received_congr hc ?_
    rw [hm, show t.engine.notes.marks = t.engine.tx.segs.map Seg.mark from rfl, map_map,
      map_map, map_map]
    refine map_congr_left fun s _ => ?_
    simp only [Function.comp_apply, Mark.share, hf s]
  rcases t.step_flight op with ⟨hw, hflight⟩ | ⟨data, hopen, hw, hcore, hnotes⟩
  · cases hflight with
    | same hc hn | track hc hn =>
      exact hsame hw (received_congr hc (congrArg (map _) (congrArg Prod.fst hn)))
        (congrArg (fun n => n.2.1) hn)
    | finish hc hn =>
      refine hsame hw ?_ (congrArg (fun n => n.2.1) hn)
      have hm : (t.step op).engine.notes.marks = t.engine.notes.marks := congrArg Prod.fst hn
      rw [received, hc, hm, show (t.step op).engine.tx.sndUna = t.engine.tx.sndUna from
        congrArg sndUna hc]
      rfl
    | opened hphase una nxt hc hn =>
      refine hsame hw ?_ (congrArg (fun n => n.2.1) hn)
      have hm : (t.step op).engine.notes.marks = t.engine.notes.marks := congrArg Prod.fst hn
      rcases h.books with ⟨-, -, hopening⟩ | ⟨_, _, _, hrun, -⟩
      · have hnil : t.engine.tx.segs = [] := map_eq_nil_iff.mp hopening.segs
        have hunack (una nxt : UInt32) : unacknowledged { t.engine.tx.core with
            sndUna := una, sndNxt := nxt } = t.engine.tx.core.pending := by
          rw [unacknowledged, show t.engine.tx.core.segs = [] from hopening.segs]
          rfl
        rw [received, received, hc, hm, show t.engine.notes.marks = [] by rw [notes, hnil]; rfl,
          hunack, hunack t.engine.tx.core.sndUna t.engine.tx.core.sndNxt, reported_nil,
          reported_nil]
      · exact absurd hphase hrun
    | acks ack win sacks harrived hopen hphase hlimit hacks =>
      rw [hw]
      rcases h.books with ⟨hph, -⟩ | ⟨una, nxt, high, -, hacc, -, hfin⟩
      · exact absurd hph (not_or.mpr ⟨hopen, hphase⟩)
      · refine credited_of_acks hacc hfin h.bbr hlimit ?_ hacks hcount
        rintro ⟨hre, hsent, hgt, highest, hhigh, hge⟩
        have hre : t.engine.tx.rewindFin = true := hre
        have hsent : t.engine.tx.finSent = false := hsent
        have hgt : Seq.gt ack t.engine.tx.sndUna = true := hgt
        have hhigh : t.engine.tx.rewindHigh = some highest := hhigh
        simp [coversRewoundFin, harrived, hphase, hre, hsent, hgt, hlimit, hhigh, hge] at hcond
    | expires he =>
      obtain ⟨h₁, h₂⟩ := received_of_expires he
      exact hsame hw h₁ h₂
    | sends hs =>
      have hlt : Seq.lt t.engine.tx.core.sndNxt t.engine.tx.core.sndUna = false := by
        rcases h.books with ⟨-, -, hopening⟩ | ⟨una, nxt, high, -, hacc, -, -⟩
        · rw [show t.engine.tx.core.sndNxt = _ from hopening.sndNxt,
            show t.engine.tx.core.sndUna = _ from hopening.sndUna]
          rw [Seq.lt, UInt32.add_comm, UInt32.add_sub_cancel]
          decide
        · have hle := hacc.una_le
          have hnxt := hacc.nxt_lt
          rw [show t.engine.tx.core.sndNxt = _ from hacc.sndNxt,
            show t.engine.tx.core.sndUna = _ from hacc.sndUna, lt_pos (by omega) (by omega)]
          exact decide_eq_false (by omega)
      obtain ⟨h₁, h₂⟩ := received_of_sends hlt hs
      exact hsame hw h₁ h₂
    | handoff accepted now hop hc hn =>
      refine hsame hw (hmap hc (congrArg Prod.fst hn) fun s => ?_) (congrArg (fun n => n.2.1) hn)
      rw [handOffSeg]
      split <;> exact ⟨rfl, rfl⟩
    | discard token cell hop htoken hheld hc hn =>
      refine hsame hw (hmap hc (congrArg Prod.fst hn) fun s => ?_) (congrArg (fun n => n.2.1) hn)
      split <;> exact ⟨rfl, rfl⟩
  · -- the stream and what is not acknowledged grow alike
    have hreceived : (t.step op).engine.received (t.step op).written =
        t.engine.received t.written := by
      rw [received, received, hw, hcore, hnotes, show (t.step op).engine.tx.sndUna =
        t.engine.tx.sndUna from congrArg sndUna hcore]
      have hunack : unacknowledged { t.engine.tx.core with
          pending := t.engine.tx.pending ++ data } = t.engine.tx.core.unacknowledged ++ data :=
        (append_assoc _ _ _).symm
      rw [hunack, length_append, length_append]
      omega
    rw [hreceived, hnotes, hcount]

/-- **Delivery is credited once**: along every run in which no acknowledgement covers a
rewound FIN, the first `k` bytes written are below the cumulative point, the others are in
flight or queued, and the delivery model has counted those `k` and the bytes above the
point whose segments are marked as reported. The FIN is not among them: once it is
acknowledged the point is one past the `k` bytes. -/
theorem delivery_credited_once (role : Role) (streamId : UInt32) (cfg : Config) (now : ℕ)
    (iss : UInt32) (hbbr : cfg.bbr = true) (ops : List Op) (t : Trace)
    (ht : t = (Trace.start (role.engine streamId cfg now iss)).run ops)
    (hcond : Run.Along Trace.step (fun t op => t.engine.coversRewoundFin op = false)
      (Trace.start (role.engine streamId cfg now iss)) ops) :
    ∃ k ≤ t.written.length,
      TxState.requeued t.engine.tx.sndUna t.engine.tx.segs ++ t.engine.tx.pending =
        t.written.drop k ∧
      (t.engine.phase = .established → t.engine.tx.sndUna =
        role.firstSeq iss + UInt32.ofNat (k + t.engine.tx.finAcked.toNat)) ∧
      t.engine.tx.bbr.delivered = min (k + (TxState.requeued t.engine.tx.sndUna
        (t.engine.tx.segs.filter Seg.sacked)).length) u64Max := by
  have hstart : (Trace.start (role.engine streamId cfg now iss)).Credits (role.firstSeq iss) := by
    refine ⟨.start role streamId cfg now iss fun _ => FinBooks.opened, ?_, ?_⟩
    · cases role <;> exact hbbr
    · cases role <;> rfl
  have hlast : t.Credits (role.firstSeq iss) := by
    rw [ht]
    exact Run.invariant_along (fun _ _ hc h => Credits.step h hc) hstart hcond
  have hcount := hlast.count
  rw [received, show t.engine.notes.marks = t.engine.tx.segs.map Seg.mark from rfl,
    reported_eq_length] at hcount
  have hcore : TxState.requeued t.engine.tx.sndUna t.engine.tx.segs ++ t.engine.tx.pending =
      t.engine.tx.core.unacknowledged := by
    rw [requeued_map]
    rfl
  obtain ⟨k, hle, hk, hund⟩ : ∃ k ≤ t.written.length,
      t.engine.tx.core.unacknowledged = t.written.drop k ∧ (t.engine.phase = .established →
        t.engine.tx.sndUna =
          role.firstSeq iss + UInt32.ofNat (k + t.engine.tx.finAcked.toNat)) := by
    rcases hlast.books with ⟨hph, -, hopening⟩ | ⟨una, nxt, high, -, hacc, -, hfin⟩
    · refine ⟨0, Nat.zero_le _, ?_, fun hphase => ?_⟩
      · rw [unacknowledged, show t.engine.tx.core.segs = [] from hopening.segs,
          show t.engine.tx.core.pending = t.written from hopening.pending]
        rfl
      · rw [show t.engine.view.phase = .established from hphase] at hph
        exact absurd hph (by decide)
    · have hund : t.engine.tx.sndUna = role.firstSeq iss + UInt32.ofNat una :=
        (show t.engine.tx.sndUna = _ from hacc.sndUna).trans (pos_toNat _ _)
      cases hacked : t.engine.tx.finAcked with
      | false =>
        exact ⟨una, hfin.unacked hacked, hacc.unacknowledged_eq, fun _ => hund⟩
      | true =>
        -- the FIN is the one past the last byte
        have hpast := (hfin.acked hacked).1
        have hnxt := (topOffset_le_iff.mp hfin.topOffset_le).1
        obtain rfl : una = t.written.length + 1 := by
          have := hacc.una_le
          omega
        refine ⟨t.written.length, le_rfl, ?_, fun _ => hund⟩
        rw [show t.engine.tx.core.unacknowledged = _ from hacc.unacknowledged_eq, drop_length,
          drop_eq_nil_of_le (Nat.le_succ _)]
  refine ⟨k, hle, hcore.trans hk, hund, hcount.trans ?_⟩
  rw [hk, length_drop]
  omega

/-- The delivery model on, with the configuration that rewinds a flight nobody reported. -/
def modelling : Config := { rewinding with bbr := true }

/-- Two bytes in flight one after the other: the second is reported before the first is
acknowledged, and then both are. -/
theorem delivery_credited_once_out_of_order :
    let t := (Trace.start (Role.responder.engine 3 modelling 0 7)).run
      [.onCell (Frame.syn 3 40 9000).encode 0, .pollTransmit 0,
        .onCell (Frame.ack 3 7 9000 SackVec.new).encode 1, .write [1], .pollTransmit 2, .write [2],
        .pollTransmit 2, .onCell (Frame.ack 3 7 9000 (SackVec.new.push ⟨8, 9⟩).1).encode 3,
        .onCell (Frame.ack 3 9 9000 SackVec.new).encode 4]
    t.engine.tx.bbr.delivered = 2 ∧ ∃ k ≤ t.written.length,
      TxState.requeued t.engine.tx.sndUna t.engine.tx.segs ++ t.engine.tx.pending =
        t.written.drop k ∧
      (t.engine.phase = .established →
        t.engine.tx.sndUna = 7 + UInt32.ofNat (k + t.engine.tx.finAcked.toNat)) ∧
      t.engine.tx.bbr.delivered = min (k + (TxState.requeued t.engine.tx.sndUna
        (t.engine.tx.segs.filter Seg.sacked)).length) u64Max :=
  ⟨by decide +kernel,
    delivery_credited_once .responder 3 modelling 0 7 rfl _ _ rfl (by decide +kernel)⟩

/-- **The second FIN is credited**: one byte was written, and after the acknowledgement of
the FIN sent past the rewound one two are counted. -/
theorem delivery_credits_second_fin :
    let t := (Trace.start (Role.responder.engine 3 modelling 0 7)).run
      (oneByteAndFin ++ [.onTimeout 5000, .onCell (Frame.ack 3 9 9000 SackVec.new).encode 5001,
        .pollTransmit 9000, .onCell (Frame.ack 3 10 9000 SackVec.new).encode 9001])
    t.written = [1] ∧ t.engine.tx.segs = [] ∧ t.engine.tx.bbr.delivered = 2 := by
  decide +kernel

end Trace

end VeilNetwork.OnionStream
