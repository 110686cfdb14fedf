import VeilNetwork.OnionStream.HalfClose
import VeilNetwork.OnionStream.Notes

/-!
# Unsent bytes cannot be acknowledged

An endpoint that follows its driver's handoffs knows which cells left. A peer, or
whoever can inject cells, may acknowledge anything; the endpoint accepts an
acknowledgement up to `ack_limit` only, and a selective range only for segments that left.
This file shows that neither reaches a sequence number that no accepted cell ever carried.

The invariant is about sequence numbers and the names of the accepted cells. A segment
that is noted as handed off is covered by them, every segment that is reported or does not
wait locally was handed off, and so is the whole space below the ceiling of a rewound
flight: the flight that went back to the queue had left. What is cut off the queue again
below that ceiling may therefore be noted as handed off, however it is cut this time.

The one call that does not fit is a discarded cell. It makes every segment it shares
sequence space with leave the local queue, and a cell that was cut before a rewind shares
space with segments that never left. The invariant needs that a discarded cell meets no
segment but its own.
-/

namespace VeilNetwork.OnionStream

open Bool OnionStream.Core

open List Option UInt32

variable {high : Option ℕ}

/-- The sequence number lies in a cell of one of these names. -/
def Covered (accepted : List LocalTransmit) (x : UInt32) : Prop :=
  ∃ token ∈ accepted, x - token.seq < token.span

instance (accepted : List LocalTransmit) : DecidablePred (Covered accepted) := fun x =>
  inferInstanceAs (Decidable (∃ token ∈ accepted, x - token.seq < token.span))

theorem Covered.append {accepted new : List LocalTransmit} {x : UInt32} (h : Covered accepted x) :
    Covered (accepted ++ new) x := by
  obtain ⟨token, htoken, hx⟩ := h
  exact ⟨token, mem_append_left _ htoken, hx⟩

/-- What the notes of an endpoint owe to the cells that left. -/
structure Left (accepted : List LocalTransmit) (e : StreamEngine) : Prop where
  tracked : e.notes.tracked = true
  handed : ∀ m ∈ e.notes.marks, m.handedOff = true →
    ∀ x, x - m.body.seq < m.body.span → Covered accepted x
  sacked : ∀ m ∈ e.notes.marks, m.sacked = true → m.handedOff = true
  sent : ∀ m ∈ e.notes.marks, m.localPending = false → m.handedOff = true
  rewound : ∀ high ∈ e.tx.rewindHigh, ∀ x, x - e.tx.sndUna < high - e.tx.sndUna →
    Covered accepted x

section Offsets

variable {base : ℕ} {W : List UInt8} {a z una nxt i : ℕ} {accepted : List LocalTransmit}
  {e : StreamEngine} {l : List Seg}

theorem Tile.toNat_span {b : Body} (h : Tile base W a b) : b.span.toNat = b.len := by
  have hlen := h.len_lt
  rw [Body.len] at hlen
  rw [Body.span, Body.len]
  split
  · rfl
  next hdata =>
    rw [if_neg hdata] at hlen
    exact toNat_ofNat_of_lt' (show _ < 2 ^ 32 by omega)

/-- A segment that covers an offset. -/
theorem Tile.covered {b : Body} (h : Tile base W a b)
    (hcovered : ∀ x, x - b.seq < b.span → Covered accepted x) (hi : a ≤ i) (hend : i < a + b.len) :
    Covered accepted (pos base i) := by
  have hlen := h.len_lt
  refine hcovered _ ?_
  rw [lt_iff_toNat_lt, h.seq, pos_sub hi (by omega), h.toNat_span]
  omega

/-- Every offset of a flight is covered, or not before the first segment that never left. -/
theorem Tiles.covered_or (h : Tiles base W a (l.map Seg.body) z)
    (hhanded : ∀ s ∈ l, s.handedOff = true → ∀ x, x - s.seq < s.span → Covered accepted x)
    (hlive : ∀ b ∈ (l.map Seg.body).head?, una < a + b.len) (hi : a ≤ i) (hz : i < z) :
    Covered accepted (pos base i) ∨ ∃ s o, l.find? (fun s => !s.handedOff) = some s ∧
      Tile base W o s.body ∧ o ≤ i ∧ una < o + s.body.len ∧ o + s.body.len ≤ z := by
  induction l generalizing a with
  | nil =>
    obtain rfl : a = z := h
    omega
  | cons s l ih =>
    obtain ⟨hs, hl⟩ := h
    obtain ⟨hfirst, hrest⟩ := forall_mem_cons.mp hhanded
    cases hleft : s.handedOff with
    | false =>
      refine .inr ⟨s, a, ?_, hs, hi, hlive s.body rfl, hl.le⟩
      rw [find?_cons_of_pos (by rw [hleft]; rfl)]
    | true =>
      rw [find?_cons_of_neg (by rw [hleft]; exact false_ne_true)]
      rcases lt_or_ge i (a + s.body.len) with hlt | hge
      · exact .inl (hs.covered (hfirst hleft) hi hlt)
      · refine ih hl hrest (fun b _ => ?_) hge
        have := hlive s.body rfl
        omega

/-- Below the ceiling of a rewound flight everything left. -/
theorem Left.covered_rewound (h : Left accepted e) (hacc : Accounts base W una nxt high e.tx.core)
    {j : ℕ} (hj : j ∈ high) (hi : una ≤ i) (hij : i < j) : Covered accepted (pos base i) := by
  have hlt := hacc.high_lt j hj
  have hhigh : e.tx.rewindHigh = some (pos base j) := by
    rw [show e.tx.rewindHigh = high.map (pos base) from hacc.rewindHigh,
      show high = some j from hj]
    rfl
  refine h.rewound _ hhigh _ ?_
  rw [show e.tx.sndUna = pos base una from hacc.sndUna, lt_iff_toNat_lt,
    pos_sub hi (by omega), pos_sub (by omega) (by omega)]
  omega

theorem Left.handed_seg (h : Left accepted e) : ∀ s ∈ e.tx.segs, s.handedOff = true →
    ∀ x, x - s.seq < s.span → Covered accepted x :=
  fun _ hs => h.handed _ (mem_map_of_mem hs)

/-- Past the flight only the ceiling of a rewound one is left. -/
theorem Left.covered_past (h : Left accepted e) (hacc : Accounts base W una nxt high e.tx.core)
    (hge : nxt ≤ i) (hi : i < topOffset nxt high) : Covered accepted (pos base i) := by
  have hle := hacc.una_le
  cases hhigh : high with
  | none =>
    rw [hhigh] at hi
    exact absurd (show i < nxt from hi) (by omega)
  | some j =>
    rw [hhigh] at hi
    have hmax : i < max nxt j := hi
    exact h.covered_rewound hacc hhigh (by omega) (by omega)

/-- **The ceiling of acknowledgements**: one that `ack_limit` lets through covers only
what left. -/
theorem Left.covered_of_ack (h : Left accepted e) (hacc : Accounts base W una nxt high e.tx.core)
    {k : ℕ} (hlimit : Seq.gt (pos base k) e.tx.ackLimit = false) (hk : una < k)
    (htop : k ≤ topOffset nxt high) (hi : una ≤ i) (hik : i < k) :
    Covered accepted (pos base i) := by
  obtain ⟨a, ha, htiles, hlive⟩ := hacc.flight
  have htop' := hacc.topOffset_lt
  rcases lt_or_ge i nxt with hlt | hge
  · rcases htiles.covered_or h.handed_seg hlive (ha.trans hi) hlt with
      hcov | ⟨s, o, hfind, htile, hoi, hlive, hend⟩
    · exact hcov
    · -- the first segment that never left caps the limit at its start
      have hcap : e.tx.ackLimit = e.tx.core.allowed s.body := by
        rw [TxState.ackLimit, hfind]
        rfl
      rw [hcap, hacc.allowed_pos htile hlive hend] at hlimit
      cases hhigh : high with
      | none =>
        rw [hhigh] at hlimit htop htop'
        simp only [elim_none] at hlimit
        rw [gt_pos (by omega) (by omega)] at hlimit
        have := of_decide_eq_false hlimit
        omega
      | some j =>
        rw [hhigh] at hlimit htop htop'
        simp only [elim_some] at hlimit
        rw [gt_pos (by omega) (by omega)] at hlimit
        have := of_decide_eq_false hlimit
        exact h.covered_rewound hacc hhigh hi (by omega)
  · exact h.covered_past hacc hge (by omega)

end Offsets

/-! ### The calls -/

/-- What is known of a segment changes only by a report of one that left. -/
def Reports (s s' : Seg) : Prop :=
  s'.mark = s.mark ∨ s.mark.handedOff = true ∧ s'.mark = { s.mark with sacked := true }

theorem Reports.trans {s s' s'' : Seg} (h : Reports s s') (h' : Reports s' s'') :
    Reports s s'' := by
  rcases h with h | ⟨hleft, h⟩
  · rw [Reports, h] at h'
    exact h'
  · rw [Reports, h] at h'
    refine .inr ⟨hleft, ?_⟩
    rcases h' with h' | ⟨-, h'⟩
    · exact h'
    · exact h'

namespace StreamEngine.AckContext

variable (c : AckContext)

theorem reports_sackSeg (r : SackRange) (s : Seg) (acc : AckEvidence) :
    Reports s (c.sackSeg r s acc).1 := by
  rw [sackSeg]
  split
  next hmatch =>
    simp only [and_eq_true] at hmatch
    exact .inr ⟨hmatch.1.1.1, rfl⟩
  · exact .inl rfl

theorem reports_sackRange (r : SackRange) (l : List Seg) (acc : AckEvidence) :
    ∀ s' ∈ (c.sackRange r l acc).1, ∃ s ∈ l, Reports s s' := by
  induction l generalizing acc with
  | nil => exact nofun
  | cons s l ih =>
    intro s' hs'
    rcases mem_cons.mp hs' with rfl | hs'
    · exact ⟨s, mem_cons_self, c.reports_sackSeg r s acc⟩
    · obtain ⟨s₀, hs₀, h⟩ := ih _ s' hs'
      exact ⟨s₀, mem_cons_of_mem _ hs₀, h⟩

theorem reports_sackRanges (rs : List SackRange) (l : List Seg) (acc : AckEvidence) :
    ∀ s' ∈ (c.sackRanges rs l acc).1, ∃ s ∈ l, Reports s s' := by
  induction rs generalizing l acc with
  | nil => exact fun s hs => ⟨s, hs, .inl rfl⟩
  | cons r rs ih =>
    intro s'' hs''
    obtain ⟨s', hs', hlater⟩ := ih (c.sackRange r l acc).1 (c.sackRange r l acc).2 s'' hs''
    obtain ⟨s, hs, hfirst⟩ := c.reports_sackRange r l acc s' hs'
    exact ⟨s, hs, hfirst.trans hlater⟩

end StreamEngine.AckContext

open StreamEngine

section Calls

variable {base : ℕ} {W : List UInt8} {una nxt : ℕ} {accepted : List LocalTransmit}
  {e e' : StreamEngine}

namespace Left

section

variable (h : Left accepted e)

include h

/-- Marks that come from the old ones, and a ceiling that is no higher. -/
theorem of_marks (htracked : e'.notes.tracked = e.notes.tracked)
    (hmarks : ∀ m' ∈ e'.notes.marks, ∃ m ∈ e.notes.marks, m'.body = m.body ∧
      m'.handedOff = m.handedOff ∧ (m'.sacked = true → m.sacked = true ∨ m.handedOff = true) ∧
      (m'.localPending = false → m.localPending = false ∨ m.handedOff = true))
    (hrewound : ∀ high ∈ e'.tx.rewindHigh, ∀ x, x - e'.tx.sndUna < high - e'.tx.sndUna →
      Covered accepted x) : Left accepted e' := by
  refine ⟨htracked.trans h.tracked, fun m' hm' hleft => ?_, fun m' hm' hsacked => ?_,
    fun m' hm' hsent => ?_, hrewound⟩
  · obtain ⟨m, hm, hbody, hhanded, -⟩ := hmarks m' hm'
    rw [hbody]
    exact h.handed m hm (hhanded ▸ hleft)
  · obtain ⟨m, hm, -, hhanded, hreport, -⟩ := hmarks m' hm'
    rw [hhanded]
    exact (hreport hsacked).elim (h.sacked m hm) id
  · obtain ⟨m, hm, -, hhanded, -, hpending⟩ := hmarks m' hm'
    rw [hhanded]
    exact (hpending hsent).elim (h.sent m hm) id

theorem rewound_congr (hhigh : e'.tx.rewindHigh = e.tx.rewindHigh)
    (hund : e'.tx.sndUna = e.tx.sndUna) :
    ∀ high ∈ e'.tx.rewindHigh, ∀ x, x - e'.tx.sndUna < high - e'.tx.sndUna →
      Covered accepted x := by
  rw [hhigh, hund]
  exact h.rewound

theorem rewound_of_core (hcore : e'.tx.core = e.tx.core) :
    ∀ high ∈ e'.tx.rewindHigh, ∀ x, x - e'.tx.sndUna < high - e'.tx.sndUna →
      Covered accepted x :=
  h.rewound_congr (congrArg rewindHigh hcore) (congrArg sndUna hcore)

/-- The same marks. -/
theorem of_flight (hnotes : e'.notes.flight = e.notes.flight)
    (hrewound : ∀ high ∈ e'.tx.rewindHigh, ∀ x, x - e'.tx.sndUna < high - e'.tx.sndUna →
      Covered accepted x) : Left accepted e' := by
  have hmarks : e'.notes.marks = e.notes.marks := congrArg Prod.fst hnotes
  refine h.of_marks (congrArg (fun n => n.2.2) hnotes) (fun m hm => ?_) hrewound
  exact ⟨m, hmarks ▸ hm, rfl, rfl, .inl, .inl⟩

theorem of_same (hcore : e'.tx.core = e.tx.core)
    (hnotes : e'.notes.flight = e.notes.flight) : Left accepted e' :=
  h.of_flight hnotes (h.rewound_of_core hcore)

theorem append (new : List LocalTransmit) : Left (accepted ++ new) e :=
  ⟨h.tracked, fun m hm hleft x hx => (h.handed m hm hleft x hx).append, h.sacked, h.sent,
    fun high hhigh x hx => (h.rewound high hhigh x hx).append⟩

/-- **An acknowledgement** covers and reports only what left. -/
theorem acks (hacc : Accounts base W una nxt high e.tx.core) {ack : UInt32}
    {sacks : SackVec} (hlimit : Seq.gt ack e.tx.ackLimit = false) (hacks : Acks ack sacks e e') :
    Left accepted e' ∧
      ∀ x, x - e.tx.sndUna < e'.tx.sndUna - e.tx.sndUna → Covered accepted x := by
  obtain ⟨e₂, ctx, acc, -, -, -, -, -, hmarks₂, hcases⟩ := hacks.exists_stages
  have hreports : ∀ m' ∈ e₂.notes.marks, ∃ m ∈ e.notes.marks, m'.body = m.body ∧
      m'.handedOff = m.handedOff ∧ (m'.sacked = true → m.sacked = true ∨ m.handedOff = true) ∧
      (m'.localPending = false → m.localPending = false ∨ m.handedOff = true) := by
    intro m' hm'
    rw [hmarks₂] at hm'
    obtain ⟨s', hs', rfl⟩ := mem_map.mp hm'
    obtain ⟨s, hs, hrep⟩ := ctx.reports_sackRanges _ _ _ s' hs'
    refine ⟨s.mark, mem_map_of_mem hs, ?_⟩
    rcases hrep with hrep | ⟨hleft, hrep⟩
    · rw [hrep]
      exact ⟨rfl, rfl, .inl, .inl⟩
    · rw [hrep]
      exact ⟨rfl, rfl, fun _ => .inr hleft, .inl⟩
  rcases hcases with ⟨hgt, hcore, hnotes⟩ | ⟨-, hcore, hnotes⟩
  · obtain ⟨k, rfl, hk, htop⟩ := hacc.ack_eq ⟨_, ackLimit_mem e.tx, hlimit⟩ hgt
    have htop' := hacc.topOffset_lt
    have hafter := hacc.advance hk htop
    have hund : e'.tx.sndUna = pos base k := (congrArg sndUna hcore).trans hafter.sndUna
    refine ⟨h.of_marks (by rw [hnotes]) (fun m' hm' => ?_) ?_, fun x hx => ?_⟩
    · rw [hnotes] at hm'
      exact hreports m' ((dropWhile_suffix _).subset hm')
    · intro high' hhigh' x hx
      rw [show e'.tx.rewindHigh = _ from (congrArg rewindHigh hcore).trans hafter.rewindHigh]
        at hhigh'
      obtain ⟨j, hj, rfl⟩ := map_eq_some_iff.mp hhigh'
      obtain ⟨hj, hkj⟩ := filter_eq_some_iff.mp hj
      have hkj := of_decide_eq_true hkj
      have hlt := hacc.high_lt j hj
      rw [hund, lt_iff_toNat_lt, pos_sub hkj.le (by omega)] at hx
      rw [eq_pos_add x base k]
      exact h.covered_rewound hacc hj (by omega) (by omega)
    · rw [hund, show e.tx.sndUna = pos base una from hacc.sndUna, lt_iff_toNat_lt,
        pos_sub hk.le (by omega)] at hx
      rw [eq_pos_add x base una]
      exact h.covered_of_ack hacc hlimit hk htop (by omega) (by omega)
  · have hund : e'.tx.sndUna = e.tx.sndUna := congrArg sndUna hcore
    refine ⟨h.of_marks (by rw [hnotes]) (fun m' hm' => ?_) (h.rewound_of_core hcore),
      fun x hx => ?_⟩
    · rw [hnotes] at hm'
      exact hreports m' hm'
    · rw [hund, UInt32.sub_self] at hx
      exact absurd hx UInt32.not_lt_zero

/-- **A rewind** puts the ceiling over a flight that left. -/
theorem expires (hacc : Accounts base W una nxt high e.tx.core)
    (hexpires : Expires e e') : Left accepted e' := by
  obtain ⟨new, -, ⟨hcore, hnotes⟩ | ⟨hsegs, hcore, hnotes⟩⟩ := hexpires
  · exact h.of_same hcore (by rw [hnotes]; rfl)
  · have hle := hacc.una_le
    have htop := hacc.topOffset_lt
    refine h.of_marks (by rw [hnotes]) (fun m hm => ?_) fun high' hhigh' x hx => ?_
    · rw [hnotes] at hm
      cases hm
    have hceiling : high' = pos base (topOffset nxt high) := by
      have hhigh' : e.tx.core.rewound.rewindHigh = some high' :=
        (congrArg rewindHigh hcore).symm.trans hhigh'
      rw [Core.rewound, hacc.rewindHigh, hacc.sndNxt] at hhigh'
      cases high with
      | none => exact (some.inj hhigh').symm
      | some j =>
        have hj := hacc.high_lt j rfl
        refine (some.inj hhigh').symm.trans ?_
        rw [map_some, elim_some, max_pos (by omega) (by omega), Nat.max_comm]
        rfl
    have hund : e'.tx.sndUna = pos base una := (congrArg sndUna hcore).trans hacc.sndUna
    rw [hund, hceiling, lt_iff_toNat_lt, pos_sub (by omega) (by omega)] at hx
    rw [eq_pos_add x base una]
    obtain ⟨a, ha, htiles, hlive⟩ := hacc.flight
    rcases lt_or_ge (una + (x - pos base una).toNat) nxt with hlt | hge
    · rcases htiles.covered_or h.handed_seg hlive (by omega) hlt with hcov | ⟨s, o, hfind, -⟩
      · exact hcov
      · -- nothing in the flight waits locally, so all of it left
        have hs := mem_of_find?_eq_some hfind
        have hleft : s.handedOff = true := h.sent s.mark (mem_map_of_mem hs) (hsegs.2 s hs).2
        have hnot := find?_some hfind
        rw [hleft] at hnot
        cases hnot
    · exact h.covered_past hacc hge (by omega)

/-- **A new segment** is noted as handed off only below the ceiling of a rewound flight. -/
theorem push {b : Body} (hseq : b.seq = e.tx.sndNxt)
    (hflight : (e.tx.sndNxt - e.tx.sndUna).toNat < 2 ^ 31)
    (hacc : e'.tx.rewindHigh.isSome →
      ∃ base W una nxt high, Accounts base W una nxt high e'.tx.core)
    (hmem : b ∈ e'.tx.core.segs) (hund : e'.tx.sndUna = e.tx.sndUna)
    (hhigh : e'.tx.rewindHigh = e.tx.rewindHigh)
    (hnotes : e'.notes = { e.notes with marks := e.notes.marks ++ [e.fresh b] }) :
    Left accepted e' := by
  have htracked : e.trackLocalHandoffs = true := h.tracked
  have hmarks : e'.notes.marks = e.notes.marks ++ [e.fresh b] := by rw [hnotes]
  have hfresh {P : Mark → Prop} (hold : ∀ m ∈ e.notes.marks, P m) (hnew : P (e.fresh b)) :
      ∀ m ∈ e'.notes.marks, P m := by
    rw [hmarks]
    intro m hm
    rcases mem_append.mp hm with hm | hm
    · exact hold m hm
    · rwa [mem_singleton.mp hm]
  refine ⟨?_, hfresh h.handed fun hleft x hx => ?_, hfresh h.sacked fun hsacked => ?_,
    hfresh h.sent fun hsent => ?_, by rw [hhigh, hund]; exact h.rewound⟩
  · rw [hnotes]
    exact h.tracked
  · -- it ends below the ceiling, so all of it left before
    have hleft : (!e.trackLocalHandoffs || e.tx.rewindHigh.elim false (Seq.leq b.stop)) = true :=
      hleft
    rw [htracked] at hleft
    cases hceiling : e.tx.rewindHigh with
    | none =>
      rw [hceiling] at hleft
      cases hleft
    | some ceiling =>
      rw [hceiling] at hleft
      obtain ⟨base, W, una, nxt, high, hacc⟩ := hacc (by rw [hhigh, hceiling]; rfl)
      obtain ⟨o, htile, hlive, hend⟩ := hacc.tile_of_mem hmem
      have hnxt := hacc.nxt_lt
      have hlen := htile.len_lt
      obtain ⟨j, hj, hjeq⟩ : ∃ j ∈ high, pos base j = ceiling :=
        map_eq_some_iff.mp (hacc.rewindHigh.symm.trans (hhigh.trans hceiling))
      have hlt := hacc.high_lt j hj
      have hafter : e.tx.sndUna = pos base una := hund.symm.trans hacc.sndUna
      -- the segment starts at or above the cumulative point
      have hstart : una ≤ o := by
        by_contra hbelow
        rw [← hseq, show b.seq = pos base o from htile.seq, hafter] at hflight
        have hturn : pos base (o + 2 ^ 32) = pos base o := by
          rw [← pos_add, show UInt32.ofNat (2 ^ 32) = 0 by decide, UInt32.add_zero]
        rw [← hturn, pos_sub (by omega) (by omega)] at hflight
        omega
      have hbelow : o + b.len ≤ j := by
        have hleq : Seq.leq b.stop ceiling = true := hleft
        rw [htile.stop, ← hjeq, leq_pos (by omega) (by omega)] at hleq
        exact of_decide_eq_true hleq
      have hin := lt_iff_toNat_lt.mp (show x - b.seq < b.span from hx)
      rw [htile.seq, htile.toNat_span] at hin
      refine h.rewound ceiling hceiling x ?_
      rw [eq_pos_add x base o, hafter, ← hjeq, lt_iff_toNat_lt,
        pos_sub (by omega) (by omega), pos_sub (by omega) (by omega)]
      omega
  · cases hsacked
  · rw [show (e.fresh b).localPending = e.trackLocalHandoffs from rfl, htracked] at hsent
    cases hsent.symm

theorem sends (hflight : (e.tx.sndNxt - e.tx.sndUna).toNat < 2 ^ 31)
    (hacc : e'.tx.rewindHigh.isSome →
      ∃ base W una nxt high, Accounts base W una nxt high e'.tx.core)
    (hsends : Sends e e') : Left accepted e' := by
  cases hsends with
  | none duplicate _ hcore hnotes => exact h.of_same hcore (by rw [hnotes]; rfl)
  | again l₁ m l₂ hmarks hcore hnotes =>
    have htracked : e.trackLocalHandoffs = true := h.tracked
    refine h.of_marks (by rw [hnotes]) (fun m' hm' => ?_) (h.rewound_of_core hcore)
    rw [show e'.notes.marks = _ from congrArg Notes.marks hnotes] at hm'
    rw [hmarks]
    rcases mem_append.mp hm' with hm' | hm'
    · exact ⟨m', mem_append_left _ hm', rfl, rfl, .inl, .inl⟩
    · rcases mem_cons.mp hm' with rfl | hm'
      · -- the segment waits locally again
        refine ⟨m, mem_append_right _ mem_cons_self, rfl, rfl, .inl, fun hsent => ?_⟩
        exact absurd (htracked.symm.trans hsent) false_ne_true.symm
      · exact ⟨m', mem_append_right _ (mem_cons_of_mem _ hm'), rfl, rfl, .inl,
          .inl⟩
  | data n hcore hnotes | fin hcore hnotes =>
    refine h.push rfl hflight hacc ?_ (congrArg sndUna hcore)
      (congrArg rewindHigh hcore) hnotes
    rw [hcore]
    exact mem_append_right _ (mem_singleton_self _)

/-- **A reported handoff** covers the segments it names. -/
theorem handoff (new : List LocalTransmit) (now : ℕ)
    (hcore : e'.tx.core = e.tx.core)
    (hnotes : e'.notes.flight = ((e.tx.segs.map (handOffSeg new now)).map Seg.mark,
      e.notes.credited, e.notes.tracked)) : Left (accepted ++ new) e' := by
  have hmarks : e'.notes.marks = (e.tx.segs.map (handOffSeg new now)).map Seg.mark :=
    congrArg Prod.fst hnotes
  have hseg : ∀ m ∈ e'.notes.marks, ∃ s ∈ e.tx.segs, m.body = s.body ∧
      m.sacked = s.sacked ∧
      (m = s.mark ∨ m.handedOff = true ∧ LocalTransmit.forSegment s ∈ new) := by
    intro m hm
    rw [hmarks] at hm
    obtain ⟨s', hs', rfl⟩ := mem_map.mp hm
    obtain ⟨s, hs, rfl⟩ := mem_map.mp hs'
    refine ⟨s, hs, ?_⟩
    rw [handOffSeg]
    split
    next hnamed =>
      simp only [and_eq_true, contains_iff_mem] at hnamed
      exact ⟨rfl, rfl, .inr ⟨rfl, hnamed.2⟩⟩
    · exact ⟨rfl, rfl, .inl rfl⟩
  have hold := h.append new
  refine ⟨(congrArg (fun n => n.2.2) hnotes).trans h.tracked, fun m hm hleft x hx => ?_,
    fun m hm hsacked => ?_, fun m hm hsent => ?_, hold.rewound_of_core hcore⟩
  · obtain ⟨s, hs, hbody, -, rfl | ⟨-, hname⟩⟩ := hseg m hm
    · exact hold.handed s.mark (mem_map_of_mem hs) hleft x hx
    · rw [hbody] at hx
      exact ⟨.forSegment s, mem_append_right _ hname, hx⟩
  · obtain ⟨s, hs, -, hsame, rfl | ⟨hleft, -⟩⟩ := hseg m hm
    · exact h.sacked s.mark (mem_map_of_mem hs) hsacked
    · exact hleft
  · obtain ⟨s, hs, -, -, rfl | ⟨hleft, -⟩⟩ := hseg m hm
    · exact h.sent s.mark (mem_map_of_mem hs) hsent
    · exact hleft

/-- **A discarded cell** that meets no segment but its own was reported, or is all below
the cumulative point and meets nothing. -/
theorem discard
    (hlive : ∀ s ∈ e.tx.segs, Seq.leq s.stop e.tx.sndUna = false) {token : LocalTransmit}
    (hheld : Seq.leq (token.seq + token.span) e.tx.sndUna = true ∨
      ∀ s ∈ e.tx.segs, overlaps token.seq (token.seq + token.span) s = true → s.sacked = true)
    (hown : ∀ s ∈ e.tx.segs, overlaps token.seq (token.seq + token.span) s = true →
      LocalTransmit.forSegment s = token) (hcore : e'.tx.core = e.tx.core)
    (hnotes : e'.notes.flight = ((e.tx.segs.map fun s =>
      if overlaps token.seq (token.seq + token.span) s then { s with localPending := false }
      else s).map Seg.mark, e.notes.credited, e.notes.tracked)) : Left accepted e' := by
  have hmarks := congrArg Prod.fst hnotes
  refine h.of_marks (congrArg (fun n => n.2.2) hnotes) (fun m hm => ?_) (h.rewound_of_core hcore)
  rw [show e'.notes.marks = _ from hmarks] at hm
  obtain ⟨s', hs', rfl⟩ := mem_map.mp hm
  obtain ⟨s, hs, rfl⟩ := mem_map.mp hs'
  refine ⟨s.mark, mem_map_of_mem hs, ?_⟩
  split
  next hmeets =>
    refine ⟨rfl, rfl, .inl, fun _ => .inr ?_⟩
    rcases hheld with hstale | hheld
    · -- its own segment is still in flight, so it is not all below the point
      rw [← hown s hs hmeets] at hstale
      exact absurd ((hlive s hs).symm.trans hstale) false_ne_true
    · exact h.sacked s.mark (mem_map_of_mem hs) (hheld s hs hmeets)
  · exact ⟨rfl, rfl, .inl, .inl⟩

end

end Left

end Calls

/-! ### Every run -/

/-- The names of the cells a call reports as accepted. -/
def Op.accepted : Op → List LocalTransmit
  | .localHandoff accepted _ => accepted
  | _ => []

/-- A discarded cell meets no segment in flight but its own. -/
def StreamEngine.discardsOwn (e : StreamEngine) : Op → Bool
  | .discardReceivedCell cell =>
    (LocalTransmit.fromCell cell).all fun token =>
      e.tx.segs.all fun s => !overlaps token.seq (token.seq + token.span) s ||
        decide (LocalTransmit.forSegment s = token)
  | _ => true

namespace Trace

/-- The books of an endpoint, and what its notes owe to the cells that left. -/
structure Handed (first : UInt32) (t : Trace) (accepted : List LocalTransmit) : Prop where
  books : ∃ n, Closing n first t.written t.engine.view
  left : Left accepted t.engine

variable {first : UInt32} {t : Trace} {accepted : List LocalTransmit}

/-- **Every call keeps the invariant**, with the cells it reports as accepted. -/
theorem Handed.step (h : t.Handed first accepted) {op : Op}
    (hown : t.engine.discardsOwn op = true) :
    (t.step op).Handed first (accepted ++ op.accepted) := by
  obtain ⟨n, hold⟩ := h.books
  have hbooks := hold.step op
  refine ⟨⟨_, hbooks⟩, ?_⟩
  rcases t.step_flight op with ⟨-, hflight⟩ | ⟨data, -, -, hcore, hnotes⟩
  · cases hflight with
    | same hcore hnotes => exact (h.left.of_same hcore hnotes).append _
    | finish hcore hnotes =>
      exact (h.left.of_flight hnotes (h.left.rewound_congr (congrArg rewindHigh hcore)
        (congrArg sndUna hcore))).append _
    | opened hphase una nxt hcore hnotes =>
      rcases hold with ⟨-, -, hopening⟩ | ⟨_, _, _, hrun, -⟩
      · have hhigh : (t.step op).engine.tx.rewindHigh = none :=
          (congrArg rewindHigh hcore).trans hopening.rewindHigh
        refine (h.left.of_flight hnotes fun high hmem => ?_).append _
        rw [hhigh] at hmem
        cases hmem
      · exact absurd hphase hrun
    | acks ack win sacks harrived hopen hphase hlimit hacks =>
      rcases hold with ⟨hph, -⟩ | ⟨una, nxt, high, -, hacc, -, -⟩
      · exact absurd hph (not_or.mpr ⟨hopen, hphase⟩)
      · exact ((h.left.acks hacc hlimit hacks).1).append _
    | expires hexpires =>
      rcases hold with ⟨-, -, hopening⟩ | ⟨una, nxt, high, -, hacc, -, -⟩
      · obtain ⟨new, -, ⟨hcore, hnotes⟩ | ⟨hsegs, -⟩⟩ := hexpires
        · exact (h.left.of_same hcore (by rw [hnotes]; rfl)).append _
        · exact absurd (map_eq_nil_iff.mp hopening.segs) hsegs.1
      · exact (h.left.expires hacc hexpires).append _
    | sends hsends =>
      refine (h.left.sends ?_ (fun hsome => ?_) hsends).append _
      · rcases hold with ⟨-, -, hopening⟩ | ⟨una, nxt, high, -, hacc, -, -⟩
        · rw [show t.engine.tx.sndNxt = _ from hopening.sndNxt,
            show t.engine.tx.sndUna = _ from hopening.sndUna, UInt32.add_comm,
            UInt32.add_sub_cancel]
          decide
        · have hle := hacc.una_le
          have hnxt := hacc.nxt_lt
          rw [show t.engine.tx.sndNxt = _ from hacc.sndNxt,
            show t.engine.tx.sndUna = _ from hacc.sndUna, pos_sub hle (by omega)]
          omega
      · rcases hbooks with ⟨-, -, hopening⟩ | ⟨una, nxt, high, -, hacc, -, -⟩
        · rw [show (t.step op).engine.tx.rewindHigh = none from hopening.rewindHigh] at hsome
          cases hsome
        · exact ⟨_, _, una, nxt, high, hacc⟩
    | track hcore hnotes =>
      refine (h.left.of_flight ?_ (h.left.rewound_of_core hcore)).append _
      rw [hnotes, Notes.flight, h.left.tracked]
    | handoff new now hop hcore hnotes =>
      rw [hop]
      rw [hop] at hcore hnotes
      exact h.left.handoff new now hcore hnotes
    | discard token cell hop htoken hheld hcore hnotes =>
      refine (h.left.discard (fun s hs => ?_) hheld ?_ hcore hnotes).append _
      · rcases hold with ⟨-, -, hopening⟩ | ⟨una, nxt, high, -, hacc, -, -⟩
        · rw [map_eq_nil_iff.mp hopening.segs] at hs
          cases hs
        · obtain ⟨o, htile, hlive, hend⟩ := hacc.tile_of_mem (mem_map_of_mem hs)
          have hnxt := hacc.nxt_lt
          rw [← Seg.stop_body, htile.stop, show t.engine.tx.sndUna = _ from hacc.sndUna,
            leq_pos (by omega) (by omega)]
          exact decide_eq_false (by omega)
      · rw [hop, discardsOwn, htoken] at hown
        intro s hs hmeets
        have hs := all_eq_true.mp hown s hs
        rw [hmeets] at hs
        exact of_decide_eq_true hs
  · refine (h.left.of_flight (congrArg Notes.flight hnotes) (h.left.rewound_congr ?_ ?_)).append _
    · exact congrArg rewindHigh hcore
    · exact congrArg sndUna hcore

/-- **Unsent bytes cannot be acknowledged**: in every run of an endpoint that follows
handoffs from its start, in which a discarded cell meets no segment but its own, whatever
acknowledgement arrives next moves the cumulative point over accepted cells only, and
leaves no segment marked as reported outside them. -/
theorem unsent_never_acknowledged (role : Role) (streamId : UInt32) (cfg : Config) (start : ℕ)
    (iss : UInt32) (ops : List Op) (t : Trace)
    (ht : t = (Trace.start (role.engine streamId cfg start iss)).run (.trackHandoffs :: ops))
    (hown : Run.Along Trace.step (fun t op => t.engine.discardsOwn op = true)
      (Trace.start (role.engine streamId cfg start iss)) (.trackHandoffs :: ops))
    (ack win : UInt32) (sacks : SackVec) (now : ℕ) (e : StreamEngine)
    (he : e = t.engine.onAck ack win sacks now) :
    (∀ x, x - t.engine.tx.sndUna < e.tx.sndUna - t.engine.tx.sndUna →
        Covered (ops.flatMap Op.accepted) x) ∧
      ∀ s ∈ e.tx.segs, s.sacked = true → ∀ x, x - s.seq < s.span →
        Covered (ops.flatMap Op.accepted) x := by
  have hstart : ((Trace.start (role.engine streamId cfg start iss)).step .trackHandoffs).Handed
      (role.firstSeq iss) [] := by
    refine ⟨⟨_, Closing.run role streamId cfg start iss [.trackHandoffs]⟩, ?_⟩
    cases role <;> exact ⟨rfl, nofun, nofun, nofun, fun high hhigh => absurd hhigh nofun⟩
  have hlast : t.Handed (role.firstSeq iss) (ops.flatMap Op.accepted) := by
    have hrun := Run.invariant_outputs_along (R := fun t log => t.Handed (role.firstSeq iss) log)
      (fun _ _ _ hc h => Handed.step h hc) hstart hown.2
    rw [Run.outputs_of_steps] at hrun
    rwa [ht]
  have hmarked {e : StreamEngine} (h : Left (ops.flatMap Op.accepted) e) : ∀ s ∈ e.tx.segs,
      s.sacked = true → ∀ x, x - s.seq < s.span → Covered (ops.flatMap Op.accepted) x := by
    intro s hs hsacked
    exact h.handed_seg s hs (h.sacked s.mark (mem_map_of_mem hs) hsacked)
  rw [he]
  rcases acks_onAck t.engine ack win sacks now with
    ⟨hcore, hnotes⟩ | ⟨hopen, hphase, hlimit, hacks⟩
  · refine ⟨fun x hx => ?_, hmarked (hlast.left.of_same hcore (congrArg Notes.flight hnotes))⟩
    rw [show (t.engine.onAck ack win sacks now).tx.sndUna = t.engine.tx.sndUna from
      congrArg sndUna hcore, UInt32.sub_self] at hx
    exact absurd hx UInt32.not_lt_zero
  · rcases hlast.books with ⟨-, ⟨hph, -⟩ | ⟨una, nxt, high, -, hacc, -, -⟩⟩
    · exact absurd hph (not_or.mpr ⟨hopen, hphase⟩)
    · obtain ⟨hleft, hcovered⟩ := hlast.left.acks hacc hlimit hacks
      exact ⟨hcovered, hmarked hleft⟩

/-- A responder that follows handoffs, with its handshake done and one byte that the
carrier took. -/
def oneByteTaken : List Op :=
  [.onCell (Frame.syn 3 40 9000).encode 0, .pollTransmit 0,
    .onCell (Frame.ack 3 7 9000 SackVec.new).encode 1, .write [1], .pollTransmit 2,
    .localHandoff [⟨7, 1, .data⟩] 2]

/-- A second byte waits locally. -/
def oneByteWaiting : List Op := oneByteTaken ++ [.write [2], .pollTransmit 3]

/-- The responder of these examples after some calls. -/
def taking (ops : List Op) : Trace :=
  (Trace.start (Role.responder.engine 3 rewinding 0 7)).run (.trackHandoffs :: ops)

/-- The byte that was taken may be acknowledged, both together may not. -/
theorem unsent_never_acknowledged_behind_taken :
    (((taking oneByteWaiting).engine.onAck 8 9000 SackVec.new 4).tx.sndUna = 8 ∧
      ((taking oneByteWaiting).engine.onAck 9 9000 SackVec.new 4).tx.sndUna = 7) ∧
    (∀ x, x - (taking oneByteWaiting).engine.tx.sndUna <
        ((taking oneByteWaiting).engine.onAck 8 9000 SackVec.new 4).tx.sndUna -
          (taking oneByteWaiting).engine.tx.sndUna →
        Covered (oneByteWaiting.flatMap Op.accepted) x) ∧
      ∀ s ∈ ((taking oneByteWaiting).engine.onAck 8 9000 SackVec.new 4).tx.segs, s.sacked = true →
        ∀ x, x - s.seq < s.span → Covered (oneByteWaiting.flatMap Op.accepted) x :=
  ⟨by decide +kernel, unsent_never_acknowledged .responder 3 rewinding 0 7 oneByteWaiting
    (taking oneByteWaiting) rfl (by decide +kernel) 8 9000 SackVec.new 4 _ rfl⟩

/-- **The discard of an old cell**: the byte goes back to the queue in a rewind and is cut
again together with a second one, which never leaves. A late acknowledgement of the first,
the discard of its old cell, and another rewind put the ceiling over both; an
acknowledgement of the second is then accepted. -/
theorem unsent_acknowledged_after_discard :
    let ops := oneByteTaken ++ [.onTimeout 5000, .write [2], .pollTransmit 5000,
      .onCell (Frame.ack 3 8 9000 SackVec.new).encode 5001,
      .discardReceivedCell (Frame.data 3 7 9000 [1]).encode,
      .onCell (Frame.ack 3 8 9000 SackVec.new).encode 5002, .onTimeout 60000]
    let t := taking ops
    t.engine.tx.sndUna = 8 ∧ (t.engine.onAck 9 9000 SackVec.new 60001).tx.sndUna = 9 ∧
      ¬Covered (ops.flatMap Op.accepted) 8 := by
  decide +kernel

end Trace

end VeilNetwork.OnionStream
