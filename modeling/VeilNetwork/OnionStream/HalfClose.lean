import VeilNetwork.OnionStream.Accounting

/-!
# The end of a direction

A half-closed direction ends with one FIN, right after the last byte written. The books of
`Accounting` are extended by where the FIN flags stand: `finSent` says exactly whether `sndNxt` is
past the FIN, a rewound FIN is the last thing below the ceiling, and `finAcked` says that
everything is.

One transition breaks this. A rewind clears `finSent`, so that the FIN is sent again
after the data; an acknowledgement that then arrives late and covers the rewound FIN
moves `sndNxt` past it and sets `finAcked`, but leaves `finSent` clear. The next poll
sends a second FIN, one past the first. `AcksRewoundFin` is that transition; along
every run without it there is one FIN, and a finished direction stays finished. In any
run it bounds the offsets, once it is counted: each time it happens there is room for
one more FIN, which is what the books leave room for (`Core.late`).
-/

namespace VeilNetwork.OnionStream

open List Bool Option StreamEngine

/-! ### The books of the FIN -/

/-- The room for FINs past the first, after a rewound FIN was covered `n` times. -/
def Core.late (c : Core) (n : ℕ) : ℕ := if c.finAcked then n else 0

/-- Where the FIN flags stand, by offsets, after `n` entries that covered a rewound FIN. -/
structure FinBooks (n : ℕ) (W : List UInt8) (una nxt : ℕ) (high : Option ℕ) (c : Core) : Prop where
  unsent : c.finSent = false → nxt ≤ W.length + c.late n
  sent : c.finSent = true → W.length < nxt ∧ c.finRequested = true
  high_data : c.rewindFin = false → ∀ j ∈ high, j ≤ W.length + c.late n
  top_le : topOffset nxt high ≤ W.length + c.late n + 1
  acked : c.finAcked = true → W.length < una ∧ (n = 0 → c.finSent = true)
  unacked : c.finAcked = false → una ≤ W.length

/-- An acknowledgement that covers a rewound FIN which has not been sent again. -/
def Core.AcksRewoundFin (c : Core) (ack : UInt32) : Prop :=
  c.rewindFin = true ∧ c.finSent = false ∧ Seq.gt ack c.sndUna = true ∧ c.Reaches ack

/-- An entry that is such an acknowledgement. -/
def Core.CoversFin (c : Core) (f : Option Frame) (c' : Core) : Prop :=
  ∃ i ack win sacks, f = some (.ack i ack win sacks) ∧ c' = c.advance ack ∧ c.AcksRewoundFin ack

namespace Core

variable {c c' : Core} {n n' : ℕ}

theorem late_le : c.late n ≤ n := by
  rw [late]
  split
  · exact le_rfl
  · exact Nat.zero_le n

theorem late_of_unacked (h : c.finAcked = false) : c.late n = 0 := by rw [late, h]; rfl

theorem late_mono (hle : n ≤ n') (hacked : c.finAcked = true → c'.finAcked = true) :
    c.late n ≤ c'.late n' := by
  cases h : c.finAcked with
  | false => exact (late_of_unacked h).trans_le (Nat.zero_le _)
  | true =>
    rwa [late, late, hacked h, h]

/-- Covering a rewound FIN makes room for one more. -/
theorem late_lt_of_covers {ack : UInt32} (hcov : c.AcksRewoundFin ack) (hlt : n < n') :
    c.late n < (c.advance ack).late n' := by
  have hacked : (c.advance ack).finAcked = true := by
    rw [finAcked_advance, hcov.1, c.reaches_iff.mp hcov.2.2.2, Bool.and_true true, Bool.or_true]
  refine late_le.trans_lt ?_
  rwa [late, hacked]

end Core

/-- Reaching the ceiling of a rewound flight is a matter of offsets. -/
theorem Accounts.reaches_pos {base : ℕ} {W : List UInt8} {una nxt k : ℕ} {high : Option ℕ}
    {c : Core} (h : Accounts base W una nxt high c) (hk : una < k) (htop : k ≤ topOffset nxt high) :
    c.Reaches (pos base k) ↔ ∃ j ∈ high, j ≤ k := by
  have htop' := h.topOffset_lt
  have hgeq : ∀ j ∈ high, Seq.geq (pos base k) (pos base j) = decide (j ≤ k) := by
    intro j hj
    have := h.high_lt j hj
    exact geq_pos (by omega) (by omega)
  rw [Core.Reaches, h.rewindHigh]
  constructor
  · rintro ⟨top, htop, hge⟩
    obtain ⟨j, hj, rfl⟩ := map_eq_some_iff.mp htop
    exact ⟨j, hj, of_decide_eq_true ((hgeq j hj).symm.trans hge)⟩
  · rintro ⟨j, hj, hjk⟩
    exact ⟨_, map_eq_some_iff.mpr ⟨j, hj, rfl⟩, (hgeq j hj).trans (decide_eq_true hjk)⟩

namespace FinBooks

variable {base n n' : ℕ} {W : List UInt8} {una nxt k : ℕ} {high : Option ℕ} {c : Core} {b : Body}

theorem opened (hsent : c.finSent = false) (hacked : c.finAcked = false) :
    FinBooks n W 0 0 none c := by
  refine ⟨fun _ => Nat.zero_le _, fun hs => ?_, nofun, Nat.zero_le _, fun ha => ?_,
    fun _ => Nat.zero_le _⟩
  · rw [hsent] at hs
    cases hs
  · rw [hacked] at ha
    cases ha

theorem mono (h : FinBooks n W una nxt high c) (hle : n ≤ n') : FinBooks n' W una nxt high c := by
  have hlate : c.late n ≤ c.late n' := Core.late_mono hle id
  have htop := h.top_le
  exact ⟨fun hs => (h.unsent hs).trans (by omega), h.sent,
    fun hf j hj => (h.high_data hf j hj).trans (by omega), by omega,
    fun ha => ⟨(h.acked ha).1, fun hzero => (h.acked ha).2 (by omega)⟩, h.unacked⟩

/-- Nothing was ever sent past the FINs there was room for. -/
theorem topOffset_le (h : FinBooks n W una nxt high c) :
    topOffset nxt high ≤ W.length + n + 1 := by
  have := h.top_le
  have := c.late_le (n := n)
  omega

section

variable (h : FinBooks 0 W una nxt high c) (hacc : Accounts base W una nxt high c)

include h hacc

/-- A FIN in flight was sent, and is the one right after the last byte. -/
theorem fin_of_mem (hb : b ∈ c.segs) (hfin : b.isFin = true) :
    b.seq = pos base W.length ∧ c.finRequested = true := by
  obtain ⟨o, htile, -, hend⟩ := hacc.tile_of_mem hb
  have hpast := htile.fin hfin
  have hlen := htile.len_pos
  have hlate := c.late_le (n := 0)
  have hnxt := (topOffset_le_iff.mp h.topOffset_le).1
  cases hsent : c.finSent with
  | false =>
    have := h.unsent hsent
    omega
  | true =>
    obtain rfl : o = W.length := by omega
    exact ⟨htile.seq, (h.sent hsent).2⟩

/-- **A finished direction is empty.** -/
theorem finished (hacked : c.finAcked = true) : c.pending = [] ∧ c.segs = [] := by
  have hpast := (h.acked hacked).1
  have hnxt := (topOffset_le_iff.mp h.topOffset_le).1
  have hle := hacc.una_le
  refine ⟨?_, ?_⟩
  · rw [hacc.pending, drop_eq_nil_of_le (by omega)]
  · by_contra hsegs
    have := hacc.una_lt_nxt hsegs
    omega

end

section

variable (h : FinBooks n W una nxt high c) (hacc : Accounts base W una nxt high c)

include h hacc

/-- The acknowledgement of everything sent covers the FIN. -/
theorem any_isFin_of_top (hunacked : c.finAcked = false) (hsent : c.finSent = true) :
    (c.segs.takeWhile fun b => Seq.leq b.stop (pos base (W.length + 1))).any Body.isFin = true := by
  have hpast := (h.sent hsent).1
  have hnxt := (topOffset_le_iff.mp h.top_le).1
  rw [Core.late_of_unacked hunacked] at hnxt
  have huna := h.unacked hunacked
  have hlt := hacc.nxt_lt
  have hsegs : c.segs ≠ [] := fun hnil => by
    have := hacc.nxt_eq_una hnil
    omega
  have hall : ∀ b ∈ c.segs, Seq.leq b.stop (pos base (W.length + 1)) = true := by
    intro b hb
    obtain ⟨o, htile, hlive, hend⟩ := hacc.tile_of_mem hb
    rw [htile.stop, leq_pos (by omega) (by omega)]
    exact decide_eq_true (by omega)
  rw [takeWhile_eq_self_iff.mpr hall]
  -- a flight of data alone would end within the stream
  by_contra hany
  obtain ⟨a, -, htiles, -⟩ := hacc.flight
  have hle := htiles.le_length hsegs fun b hb =>
    eq_false_iff.mpr (any_eq_false.mp (eq_false_iff.mpr hany) b hb)
  omega

/-- **An acknowledgement** moves the flags with the offsets, and makes room for one more FIN
if it covers a rewound one that was not sent again. -/
theorem advance (hk : una < k) (htop : k ≤ topOffset nxt high) (hle : n ≤ n')
    (hcount : c.AcksRewoundFin (pos base k) → n < n') :
    FinBooks n' W k (max nxt k) (high.filter fun j => decide (k < j))
      (c.advance (pos base k)) := by
  obtain ⟨hnxt, hhigh⟩ := topOffset_le_iff.mp h.top_le
  have htop₁ := h.top_le
  have htop' := hacc.topOffset_lt
  obtain ⟨hsent, hreq, -, hdata⟩ := c.flags_advance (pos base k)
  have hack : Seq.gt (pos base k) c.sndUna = true := by
    rw [hacc.sndUna, gt_pos (by omega) (by omega)]
    exact decide_eq_true hk
  have hreach := hacc.reaches_pos hk htop
  have hfilter : ∀ j ∈ high.filter fun j => decide (k < j), j ∈ high ∧ k < j := by
    intro j hj
    obtain ⟨hj, hlt⟩ := filter_eq_some_iff.mp hj
    exact ⟨hj, of_decide_eq_true hlt⟩
  have hlate : c.late n ≤ (c.advance (pos base k)).late n' := by
    refine Core.late_mono hle fun hold => ?_
    rw [c.finAcked_advance, hold, Bool.true_or, Bool.true_or]
  have hcover (hcov : c.AcksRewoundFin (pos base k)) :
      c.late n < (c.advance (pos base k)).late n' := Core.late_lt_of_covers hcov (hcount hcov)
  -- not sent: if a FIN is below the ceiling, reaching it is what makes room
  have hunsent (hs : c.finSent = false) :
      max nxt k ≤ W.length + (c.advance (pos base k)).late n' := by
    have hnxt := h.unsent hs
    refine max_le (by omega) ?_
    cases high with
    | none =>
      have : k ≤ nxt := htop
      omega
    | some j =>
      have hj := hhigh j rfl
      have hkj : k ≤ max nxt j := htop
      cases hre : c.rewindFin with
      | false =>
        have := h.high_data hre j rfl
        omega
      | true =>
        by_cases hjk : j ≤ k
        · have := hcover ⟨hre, hs, hack, hreach.mpr ⟨j, rfl, hjk⟩⟩
          omega
        · omega
  refine ⟨fun hs => hunsent (hsent ▸ hs), fun hs => ?_, fun hf j hj => ?_,
    topOffset_le_iff.mpr ⟨by omega, fun j hj => ?_⟩, fun ha => ?_, fun ha => ?_⟩
  · rw [hsent] at hs
    obtain ⟨hpast, hrequested⟩ := h.sent hs
    exact ⟨by omega, hreq.trans hrequested⟩
  · rcases hdata hf with hre | hre
    · have := h.high_data hre j (hfilter j hj).1
      omega
    · obtain ⟨i, hi, hik⟩ := hreach.mp hre
      obtain ⟨hj, hkj⟩ := hfilter j hj
      obtain rfl : i = j := some.inj (hi.symm.trans hj)
      omega
  · have := hhigh j (hfilter j hj).1
    omega
  · -- what is acknowledged is a segment or a rewound flight past the end
    rw [hsent]
    rw [c.finAcked_advance, or_eq_true_iff, or_eq_true_iff, and_eq_true_iff] at ha
    rcases ha with (hold | hany) | ⟨hre, hre'⟩
    · exact ⟨(h.acked hold).1.trans hk, fun hzero => (h.acked hold).2 (by omega)⟩
    · obtain ⟨b, hb, hbfin⟩ := any_eq_true.mp hany
      have hcov := mem_takeWhile_imp hb
      obtain ⟨o, htile, hlive, hend⟩ := hacc.tile_of_mem ((takeWhile_sublist _).subset hb)
      have hpast := htile.fin hbfin
      have hlen := htile.len_pos
      rw [htile.stop, leq_pos (by omega) (by omega)] at hcov
      have := of_decide_eq_true hcov
      refine ⟨by omega, fun hzero => ?_⟩
      by_contra hs
      have := h.unsent (eq_false_iff.mpr hs)
      have := c.late_le (n := n)
      omega
    · have hre' := c.reaches_iff.mpr hre'
      obtain ⟨j, hj, hlong⟩ := hacc.rewindFin hre
      obtain ⟨i, hi, hik⟩ := hreach.mp hre'
      obtain rfl : i = j := some.inj (hi.symm.trans hj)
      refine ⟨by omega, fun hzero => ?_⟩
      by_contra hs
      have := hcount ⟨hre, eq_false_iff.mpr hs, hack, hre'⟩
      omega
  · have hlate' := Core.late_of_unacked (n := n') ha
    rw [c.finAcked_advance, or_eq_false_iff, or_eq_false_iff] at ha
    obtain ⟨⟨hold, hany⟩, -⟩ := ha
    by_contra hlong
    obtain rfl : k = W.length + 1 := by omega
    cases hs : c.finSent with
    | false =>
      have := hunsent hs
      omega
    | true =>
      rw [h.any_isFin_of_top hacc hold hs] at hany
      cases hany

/-- **A rewind** takes the FIN back with the flight. -/
theorem rewound (hsegs : c.segs ≠ []) :
    FinBooks n W una una (some (topOffset nxt high)) c.rewound := by
  have htop := h.top_le
  have hnxt := (topOffset_le_iff.mp htop).1
  have hlt := hacc.una_lt_nxt hsegs
  have hlate : c.rewound.late n = c.late n := rfl
  have hnofin (hany : c.segs.any Body.isFin = false) : nxt ≤ W.length := by
    obtain ⟨a, -, htiles, -⟩ := hacc.flight
    exact htiles.le_length hsegs fun b hb => eq_false_iff.mpr (any_eq_false.mp hany b hb)
  refine ⟨fun _ => by omega, fun hs => ?_, fun hf j hj => ?_,
    topOffset_le_iff.mpr ⟨by omega, fun j hj => ?_⟩, fun ha => ⟨(h.acked ha).1, fun hzero => ?_⟩,
    h.unacked⟩
  · obtain ⟨hs, hany⟩ := and_eq_true_iff.mp hs
    have := hnofin ((not_eq_true' _).mp hany)
    have := (h.sent hs).1
    omega
  · cases hj
    obtain ⟨hre, hany⟩ := or_eq_false_iff.mp hf
    have := hnofin hany
    exact topOffset_le_iff.mpr ⟨by omega, h.high_data hre⟩
  · cases hj
    exact htop
  · have := (h.acked ha).1
    have := c.late_le (n := n)
    omega

end

/-- **Every entry keeps the books of the FIN.** -/
theorem entry {f : Option Frame} {una' nxt' : ℕ} {high' : Option ℕ} {c' : Core}
    (hentry : Entry base f una nxt high c una' nxt' high' c')
    (hacc : Accounts base W una nxt high c) (hle : n ≤ n') (hcount : c.CoversFin f c' → n < n')
    (h : FinBooks n W una nxt high c) : FinBooks n' W una' nxt' high' c' := by
  have hkeep := h.mono hle
  obtain ⟨hnxt, hhigh⟩ := topOffset_le_iff.mp hkeep.top_le
  cases hentry with
  | same => exact hkeep
  | finish => exact { hkeep with sent := fun hs => ⟨(h.sent hs).1, rfl⟩ }
  | rewound hsegs => exact hkeep.rewound hacc hsegs
  | sendData m hpos hlen =>
    rw [hacc.pending, length_drop] at hlen
    refine ⟨fun _ => by omega, fun hs => ?_, hkeep.high_data,
      topOffset_le_iff.mpr ⟨by omega, hhigh⟩, hkeep.acked, h.unacked⟩
    have := (h.sent hs).1
    omega
  | sendFin hpending hreq hsent =>
    rw [hacc.pending, drop_eq_nil_iff] at hpending
    have hunsent : nxt ≤ W.length + c.late n' := hkeep.unsent hsent
    exact ⟨nofun, fun _ => ⟨Nat.lt_succ_of_le hpending, hreq⟩, hkeep.high_data,
      topOffset_le_iff.mpr ⟨Nat.succ_le_succ hunsent, hhigh⟩,
      fun ha => ⟨(h.acked ha).1, fun _ => rfl⟩, h.unacked⟩
  | advance k i win sacks hframe hk htop hack =>
    exact h.advance hacc hk htop hle fun hcov => hcount ⟨i, _, win, sacks, hframe, rfl, hcov⟩

/-- **A write** before the half-close. -/
theorem write (hacc : Accounts base W una nxt high c) (hopen : c.finRequested = false)
    (h : FinBooks n W una nxt high c) (data : List UInt8) :
    FinBooks n (W ++ data) una nxt high { c with pending := c.pending ++ data } := by
  obtain ⟨hnxt, hhigh, -, -⟩ := hacc.unfinished hopen
  have hle : W.length ≤ (W ++ data).length := by
    rw [length_append]
    exact Nat.le_add_right _ _
  refine ⟨fun _ => by omega, fun hs => ?_, fun _ j hj => (hhigh j hj).trans (by omega),
    topOffset_le_iff.mpr ⟨by omega, fun j hj => (hhigh j hj).trans (by omega)⟩, fun ha => ?_,
    fun ha => (h.unacked ha).trans hle⟩
  · rw [show c.finRequested = true from (h.sent hs).2] at hopen
    cases hopen
  · have := (h.acked ha).1
    have := hacc.una_le
    omega

end FinBooks

/-! ### Every run -/

/-- Whether a call delivers an accepted acknowledgement of a rewound FIN which has not
been sent again. -/
def StreamEngine.coversRewoundFin (e : StreamEngine) (op : Op) : Bool :=
  decide (e.phase ≠ .closed) && e.tx.rewindFin && !e.tx.finSent &&
    match op.arrived with
    | some (.ack i ack _ _) =>
      decide (i = e.streamId) && !Seq.gt ack e.tx.ackLimit && Seq.gt ack e.tx.sndUna &&
        e.tx.rewindHigh.any (Seq.geq ack)
    | _ => false

/-- How many calls of a run cover a rewound FIN. -/
def Trace.lateFinAcks (t : Trace) (ops : List Op) : ℕ :=
  (Run.outputs Trace.step (fun t op => if t.engine.coversRewoundFin op then [op] else []) t
    ops).length

variable {op : Op}

theorem length_covers {b : Bool} : (if b then [op] else []).length = b.toNat := by
  cases b <;> rfl

/-- The books of an endpoint together with those of its FIN. -/
abbrev Closing (n : ℕ) : UInt32 → List UInt8 → View → Prop := Books (FinBooks n)

namespace Closing

variable {first : UInt32} {W : List UInt8} {v v' : View} {f : Option Frame} {n n' : ℕ}

theorem grow (hle : n ≤ n') (h : Closing n first W v) : Closing n' first W v :=
  h.imp fun _ hfin => hfin.mono hle

theorem move (hle : n ≤ n') (hcount : v.core.CoversFin f v'.core → n < n') (hmove : Move f v v')
    (h : Closing n first W v) : Closing n' first W v' :=
  Books.move (fun _ => .opened) (fun he hacc hq => hq.entry he hacc hle hcount) hmove h

/-- The moves of anything but an acknowledgement. -/
theorem moves (hf : ∀ i ack win sacks, f ≠ some (.ack i ack win sacks)) (hmoves : Moves f v v')
    (h : Closing n first W v) : Closing n first W v' :=
  hmoves.keep (fun _ _ hmove hb =>
    move le_rfl (fun ⟨i, ack, win, sacks, heq, _⟩ => absurd heq (hf i ack win sacks)) hmove hb) h

/-- The moves of one acknowledgement: it advances at most once. -/
theorem moves_ack {i ack win : UInt32} {sacks : SackVec}
    (hmoves : Moves (some (.ack i ack win sacks)) v v') (hle : n ≤ n')
    (hcount : v.core.AcksRewoundFin ack → n < n') (h : Closing n first W v) :
    Closing n' first W v' := by
  have hgone {u u' : View} (huna : u.core.sndUna = ack) :
      ¬u.core.CoversFin (some (.ack i ack win sacks)) u'.core := by
    rintro ⟨_, _, _, _, hframe, -, -, -, hgt, -⟩
    cases hframe
    rw [huna, Seq.gt_self] at hgt
    cases hgt
  have hstep : ∀ u u' : View, Move (some (.ack i ack win sacks)) u u' →
      (Closing n first W u ∧ u.core = v.core ∨
        Closing n' first W u ∧ u.core.sndUna = ack) →
      (Closing n first W u' ∧ u'.core = v.core ∨
        Closing n' first W u' ∧ u'.core.sndUna = ack) := by
    rintro u u' hmove (⟨hu, hcore⟩ | ⟨hu, huna⟩)
    · by_cases hsame : u'.core = u.core
      · refine .inl ⟨move le_rfl ?_ hmove hu, hsame.trans hcore⟩
        rintro ⟨_, _, _, _, hframe, hadvance, -, -, hgt, -⟩
        cases hframe
        rw [← hsame, hadvance, Core.sndUna_advance, Seq.gt_self] at hgt
        cases hgt
      · refine .inr ⟨move hle ?_ hmove hu, ?_⟩
        · rintro ⟨_, _, _, _, hframe, -, hcov⟩
          cases hframe
          exact hcount (hcore ▸ hcov)
        · cases hmove with
          | advance => exact Core.sndUna_advance _ _
          | _ => exact absurd rfl hsame
    · refine .inr ⟨move le_rfl (fun hcov => absurd hcov (hgone huna)) hmove hu, ?_⟩
      cases hmove with
      | advance => exact Core.sndUna_advance _ _
      | _ => exact huna
  rcases hmoves.keep hstep (.inl ⟨h, rfl⟩) with ⟨hend, -⟩ | ⟨hend, -⟩
  · exact grow hle hend
  · exact hend

/-- **Every call keeps the count.** -/
theorem step {t : Trace} (op : Op) (h : Closing n first t.written t.engine.view) :
    Closing (n + (t.engine.coversRewoundFin op).toNat) first (t.step op).written
      (t.step op).engine.view := by
  have hle : n ≤ n + (t.engine.coversRewoundFin op).toNat := Nat.le_add_right _ _
  rcases Trace.step_cases t op with ⟨hmoves, hw, -⟩ | ⟨data, -, hphase, hopen, hv, hw, -⟩ |
    ⟨n, hmoves, hw, -⟩
  · rw [hw]
    cases harr : op.arrived with
    | none =>
      rw [harr] at hmoves
      exact grow hle (moves (by simp) hmoves h)
    | some frame =>
      cases frame with
      | ack i ack win sacks =>
        by_cases hignored :
            i ≠ t.engine.streamId ∨ t.engine.phase = .closed ∨
              Seq.gt ack t.engine.tx.ackLimit = true
        · -- only a delivered cell brings a frame, and this one is ignored
          cases op with
          | onCell cell now =>
            rw [show (t.step (.onCell cell now)).engine.view = t.engine.view from
              view_onCell_of_ignored harr hignored now]
            exact grow hle h
          | _ => exact absurd harr (by simp [Op.arrived])
        · obtain ⟨hid, hrest⟩ := not_or.mp hignored
          obtain ⟨hphase, hlimit⟩ := not_or.mp hrest
          obtain rfl := not_not.mp hid
          rw [harr] at hmoves
          refine moves_ack hmoves hle ?_ h
          rintro ⟨hre, hsent, hgt, hreach⟩
          obtain ⟨high, hhigh, hge⟩ := hreach
          have hre : t.engine.tx.rewindFin = true := hre
          have hsent : t.engine.tx.finSent = false := hsent
          have hgt : Seq.gt ack t.engine.tx.sndUna = true := hgt
          have hhigh : t.engine.tx.rewindHigh = some high := hhigh
          have hcovers : t.engine.coversRewoundFin op = true := by
            simp [coversRewoundFin, harr, hphase, hre, hsent, hgt, hlimit, hhigh, hge]
          rw [hcovers]
          exact Nat.lt_succ_self n
      | _ =>
        rw [harr] at hmoves
        exact grow hle (moves (by simp) hmoves h)
  · rw [hv, hw]
    exact grow hle (.write (fun hacc hq => hq.write hacc hopen data) hopen h)
  · rw [hw]
    exact grow hle (moves (by simp) hmoves (h.read n))

/-- **Every run keeps the count.** -/
theorem run (role : Role) (streamId : UInt32) (cfg : Config) (now : ℕ) (iss : UInt32)
    (ops : List Op) :
    let start := Trace.start (role.engine streamId cfg now iss)
    Closing (start.lateFinAcks ops) (role.firstSeq iss) (start.run ops).written
      (start.run ops).engine.view := by
  intro start
  have hstart : Closing ([] : List Op).length (role.firstSeq iss) start.written
      start.engine.view := .start role streamId cfg now iss fun _ => .opened
  refine Run.invariant_outputs (R := fun (t : Trace) log =>
    Closing log.length (role.firstSeq iss) t.written t.engine.view) ?_ hstart ops
  intro t op log h
  rw [length_append, length_covers]
  exact step op h

/-- A FIN in flight is the one right after the last byte. -/
theorem fin_of_mem (h : Closing 0 first W v) {b : Body} (hb : b ∈ v.core.segs)
    (hbfin : b.isFin = true) :
    b.seq = first + UInt32.ofNat W.length ∧ v.core.finRequested = true := by
  rcases h with ⟨-, -, h⟩ | ⟨una, nxt, high, -, h, -, hfin⟩
  · rw [h.segs] at hb
    cases hb
  · obtain ⟨hseq, hreq⟩ := hfin.fin_of_mem h hb hbfin
    exact ⟨hseq.trans (pos_toNat first W.length), hreq⟩

/-- A direction whose FIN is acknowledged has nothing left to send. -/
theorem finished (h : Closing 0 first W v) (hacked : v.core.finAcked = true) :
    v.core.pending = [] ∧ v.core.segs = [] := by
  rcases h with ⟨-, -, h⟩ | ⟨una, nxt, high, -, h, -, hfin⟩
  · rw [h.finAcked] at hacked
    cases hacked
  · exact hfin.finished h hacked

/-- **Every call keeps the books of the FIN**, unless it covers a rewound one. -/
theorem step_of_not_covers {t : Trace} (hcond : t.engine.coversRewoundFin op = false)
    (h : Closing 0 first t.written t.engine.view) :
    Closing 0 first (t.step op).written (t.step op).engine.view := by
  have hstep := h.step op
  rw [hcond] at hstep
  exact hstep

end Closing

/-! ### The bytes in flight and in the queue -/

/-- **The sender's byte accounting**: in every reachable state of an established
endpoint the flight is contiguous, starts at or before `sndUna` and ends at `sndNxt`;
its unacknowledged bytes followed by the queue are what `write` accepted from the
offset of `sndUna` on; and neither `sndNxt` nor the ceiling of a rewound flight is
half a range ahead of `sndUna`. That offset is within the stream until the FIN is
acknowledged, and past it by the FINs acknowledged after that. -/
theorem flight_and_queue_account_for_written (role : Role) (streamId : UInt32) (cfg : Config)
    (now : ℕ) (iss : UInt32) (ops : List Op) (t : Trace)
    (ht : t = (Trace.start (role.engine streamId cfg now iss)).run ops)
    (hphase : t.engine.phase = .established) :
    Contiguous t.engine.tx.segs t.engine.tx.sndNxt ∧
      (∀ s ∈ t.engine.tx.segs.head?, Seq.leq s.seq t.engine.tx.sndUna = true) ∧
      (t.engine.tx.segs = [] → t.engine.tx.sndNxt = t.engine.tx.sndUna) ∧
      (∃ offset, t.engine.tx.sndUna = role.firstSeq iss + UInt32.ofNat offset ∧
        TxState.requeued t.engine.tx.sndUna t.engine.tx.segs ++ t.engine.tx.pending =
          t.written.drop offset ∧
        (t.engine.tx.finAcked = false → offset ≤ t.written.length) ∧
        (t.engine.tx.finAcked = true → t.written.length < offset ∧ offset ≤ t.written.length + 1 +
          (Trace.start (role.engine streamId cfg now iss)).lateFinAcks ops)) ∧
      (t.engine.tx.sndNxt - t.engine.tx.sndUna).toNat < 2 ^ 31 ∧
      ∀ high ∈ t.engine.tx.rewindHigh, (high - t.engine.tx.sndUna).toNat < 2 ^ 31 := by
  have hbooks := Closing.run role streamId cfg now iss ops
  dsimp only at hbooks
  rw [← ht] at hbooks
  rcases hbooks with ⟨hopening, -, -⟩ | ⟨una, nxt, high, -, h, -, hfin⟩
  · rw [show t.engine.view.phase = .established from hphase] at hopening
    exact absurd hopening (by decide)
  obtain ⟨a, ha, htiles, hlive⟩ := h.flight
  have hle := h.una_le
  have hlt := h.nxt_lt
  have hund : t.engine.tx.sndUna = pos _ una := h.sndUna
  have hnxt : t.engine.tx.sndNxt = pos _ nxt := h.sndNxt
  have hnear := htiles.near hle hlive
  refine ⟨hnxt ▸ htiles.contiguous, fun s hs => ?_, fun hsegs => ?_,
    ⟨una, ?_, ?_, hfin.unacked, fun hacked =>
      ⟨(hfin.acked hacked).1, ?_⟩⟩, ?_, fun top htop => ?_⟩
  · -- the first segment is where the tiling starts
    have hseq : s.seq = pos (role.firstSeq iss).toNat a := by
      cases hsegs : t.engine.tx.segs with
      | nil => rw [hsegs] at hs; cases hs
      | cons s' l =>
        rw [hsegs] at hs
        obtain rfl := some.inj hs
        rw [show t.engine.view.core.segs = (s' :: l).map Seg.body from
          congrArg (map Seg.body) hsegs] at htiles
        exact htiles.1.seq
    rw [hseq, hund, leq_pos (by omega) (by omega)]
    exact decide_eq_true ha
  · rw [hnxt, hund, h.nxt_eq_una (congrArg (map Seg.body) hsegs)]
  · rw [hund, pos_toNat]
  · have hpending : t.engine.tx.pending = t.written.drop nxt := h.pending
    rw [requeued_map, hund, hpending]
    exact (htiles.requeued hle (by omega) hnear).trans (by rw [max_eq_right ha])
  · have := (topOffset_le_iff.mp hfin.topOffset_le).1
    omega
  · rw [hnxt, hund, pos_sub hle (by omega)]
    omega
  · have hhigh : t.engine.tx.rewindHigh = high.map (pos _) := h.rewindHigh
    rw [hhigh] at htop
    obtain ⟨k, hk, rfl⟩ := map_eq_some_iff.mp htop
    have := h.high_lt k hk
    rw [hund, pos_sub (by omega) (by omega)]
    omega

/-- Three bytes are written, in segments of two; the first byte is acknowledged. -/
def firstByteAcked : List Op :=
  [.onCell (Frame.syn 3 40 9000).encode 0, .write [1, 2, 3], .pollTransmit 1, .pollTransmit 1,
    .onCell (Frame.ack 3 8 9000 SackVec.new).encode 2]

/-- A responder that has sent two of three bytes, one of them acknowledged. -/
theorem flight_and_queue_account_for_written_partial_ack :
    let t := (Trace.start (Role.responder.engine 3 { Config.default with mss := 2 } 0 7)).run
      firstByteAcked
    t.engine.phase = .established ∧ t.engine.tx.segs.length = 1 ∧
      ∃ offset, offset ≤ 3 ∧ t.engine.tx.sndUna = 7 + UInt32.ofNat offset ∧
        TxState.requeued t.engine.tx.sndUna t.engine.tx.segs ++ t.engine.tx.pending =
          t.written.drop offset := by
  intro t
  obtain ⟨-, -, -, ⟨offset, hund, hbytes, hwithin, -⟩, -⟩ :=
    flight_and_queue_account_for_written .responder 3 { Config.default with mss := 2 } 0 7
      firstByteAcked t rfl (by decide +kernel)
  have hthree : t.written.length = 3 := by decide +kernel
  exact ⟨by decide +kernel, by decide +kernel, offset, hthree ▸ hwithin (by decide +kernel), hund,
    hbytes⟩

/-! ### One FIN, and a finished direction stays finished -/

namespace Trace

/-- Every FIN cell emitted so far is the one that follows the last byte accepted. -/
def OneFin (first : UInt32) (t : Trace) : Prop :=
  ∀ cell ∈ t.emitted, cell[1]? = some Ty.fin →
    cell = (Frame.fin t.engine.streamId (first + UInt32.ofNat t.written.length)).encode

/-- Once its FIN is acknowledged, a direction is complete after any further calls, and
they emit no DATA and no FIN cell. -/
def StaysFinished (t : Trace) (ops : List Op) : Prop :=
  t.engine.tx.finAcked = true → (t.run ops).engine.isSendComplete = true ∧
    ∀ cell ∈ (t.run ops).emitted.drop t.emitted.length,
      cell[1]? ≠ some Ty.data ∧ cell[1]? ≠ some Ty.fin

/-- The FIN cells of a run, with the half-close that preceded them. -/
structure FinCells (first : UInt32) (t : Trace) : Prop where
  closing : Closing 0 first t.written t.engine.view
  requested : ∀ cell ∈ t.emitted, cell[1]? = some Ty.fin → t.engine.tx.finRequested = true
  oneFin : t.OneFin first

variable {first : UInt32} {t : Trace}

theorem FinCells.step (hcond : t.engine.coversRewoundFin op = false) (h : FinCells first t) :
    FinCells first (t.step op) := by
  obtain ⟨hid, hreq, -⟩ := t.step_keeps op
  have hclosing := h.closing.step_of_not_covers hcond
  have hall : ∀ cell ∈ (t.step op).emitted, cell[1]? = some Ty.fin →
      (t.step op).engine.tx.finRequested = true ∧
      cell = (Frame.fin (t.step op).engine.streamId
        (first + UInt32.ofNat (t.step op).written.length)).encode := by
    intro cell hcell hty
    by_cases hold : cell ∈ t.emitted
    · obtain ⟨hr, hw⟩ := hreq (h.requested cell hold hty)
      rw [hid, hw]
      exact ⟨hr, h.oneFin cell hold hty⟩
    · rcases t.step_emitted op with hsame | ⟨f, hf, -, -, -, hnew⟩
      · exact absurd (hsame ▸ hcell) hold
      · rw [hnew] at hcell
        obtain rfl := mem_singleton.mp ((mem_append.mp hcell).resolve_left hold)
        rw [Frame.getElem?_encode_one] at hty
        cases hf with
        | fin b hphase hb hfin =>
          obtain ⟨hseq, hr⟩ := hclosing.fin_of_mem hb hfin
          exact ⟨hr, by rw [hseq]; rfl⟩
        | _ => exact absurd (some.inj hty) (by simp only [Frame.ty]; decide)
  exact ⟨hclosing, fun cell hcell hty => (hall cell hcell hty).1,
    fun cell hcell hty => (hall cell hcell hty).2⟩

/-- A finished trace with what was emitted since. -/
structure Finished (first : UInt32) (sent : List (List UInt8)) (t : Trace) : Prop where
  closing : Closing 0 first t.written t.engine.view
  acked : t.engine.tx.finAcked = true
  emitted : ∃ new, t.emitted = sent ++ new ∧
    ∀ cell ∈ new, cell[1]? ≠ some Ty.data ∧ cell[1]? ≠ some Ty.fin

variable {sent : List (List UInt8)}

theorem Finished.step (hcond : t.engine.coversRewoundFin op = false) (h : Finished first sent t) :
    Finished first sent (t.step op) := by
  have hclosing := h.closing.step_of_not_covers hcond
  have hacked := (t.step_keeps op).2.2 h.acked
  have hsegs : (t.step op).engine.view.core.segs = [] := (hclosing.finished hacked).2
  obtain ⟨new, hnew, hquiet⟩ := h.emitted
  refine ⟨hclosing, hacked, ?_⟩
  rcases t.step_emitted op with hsame | ⟨f, hf, -, -, -, hcell⟩
  · exact ⟨new, hsame.trans hnew, hquiet⟩
  · refine ⟨new ++ [f.encode], by rw [hcell, hnew, append_assoc], ?_⟩
    intro cell hmem
    rcases mem_append.mp hmem with hmem | hmem
    · exact hquiet cell hmem
    · obtain rfl := mem_singleton.mp hmem
      rw [Frame.getElem?_encode_one]
      -- with nothing in flight only handshake, acknowledgement and reset cells are left
      cases hf with
      | data b win hphase hb | fin b hphase hb => rw [hsegs] at hb; cases hb
      | _ => exact ⟨by simp only [Frame.ty]; decide, by simp only [Frame.ty]; decide⟩

theorem Finished.isSendComplete (h : Finished first sent t) : t.engine.isSendComplete = true := by
  obtain ⟨hpending, hsegs⟩ := h.closing.finished h.acked
  have hpending : t.engine.tx.pending = [] := hpending
  have hsegs : t.engine.tx.segs = [] := map_eq_nil_iff.mp hsegs
  rw [StreamEngine.isSendComplete, hpending, hsegs, h.acked]
  simp

/-- **The end of a direction**: along every run in which no acknowledgement covers a
rewound FIN before it is sent again, every FIN cell is the one right after the last
byte accepted by `write`, and once it is acknowledged the direction stays complete
and emits neither DATA nor FIN. -/
theorem one_fin_and_stays_finished (role : Role) (streamId : UInt32) (cfg : Config) (now : ℕ)
    (iss : UInt32) (ops ops' : List Op) (t : Trace)
    (ht : t = (Trace.start (role.engine streamId cfg now iss)).run ops)
    (hcond : Run.Along step (fun t op => t.engine.coversRewoundFin op = false)
      (Trace.start (role.engine streamId cfg now iss)) (ops ++ ops')) :
    (t.run ops').OneFin (role.firstSeq iss) ∧ t.StaysFinished ops' := by
  obtain ⟨hops, hops'⟩ := Run.along_append.mp hcond
  rw [← run, ← ht] at hops'
  have hstart : FinCells (role.firstSeq iss) (.start (role.engine streamId cfg now iss)) :=
    ⟨.start role streamId cfg now iss fun _ => FinBooks.opened, nofun,
      nofun⟩
  have hcells : FinCells (role.firstSeq iss) t := by
    rw [ht]
    exact Run.invariant_along (fun t op hc h => h.step hc) hstart hops
  refine ⟨(Run.invariant_along (fun t op hc h => FinCells.step hc h) hcells hops').oneFin, ?_⟩
  intro hacked
  have hfinished : Finished (role.firstSeq iss) t.emitted (t.run ops') :=
    Run.invariant_along (fun t op hc h => h.step hc)
      ⟨hcells.closing, hacked, [], (append_nil _).symm,
        nofun⟩ hops'
  refine ⟨hfinished.isSendComplete, ?_⟩
  obtain ⟨new, hnew, hquiet⟩ := hfinished.emitted
  rwa [hnew, drop_left]

instance (first : UInt32) (t : Trace) : Decidable (t.OneFin first) := by
  unfold OneFin
  infer_instance

instance (t : Trace) (ops : List Op) : Decidable (t.StaysFinished ops) := by
  unfold StaysFinished
  infer_instance

/-- A responder with its handshake done, one byte and the FIN on the network. -/
def oneByteAndFin : List Op :=
  [.onCell (Frame.syn 3 40 9000).encode 0, .pollTransmit 0,
    .onCell (Frame.ack 3 7 9000 SackVec.new).encode 1, .write [1], .finish, .pollTransmit 2,
    .pollTransmit 2]

/-- The configuration that rewinds a flight nobody reported. -/
def rewinding : Config := { Config.default with rtoRewindNoSack := true }

/-- The rewound byte and FIN are sent again before both are acknowledged. -/
theorem one_fin_and_stays_finished_after_rewind :
    let t := (Trace.start (Role.responder.engine 3 rewinding 0 7)).run
      (oneByteAndFin ++ [.onTimeout 5000, .pollTransmit 5000, .pollTransmit 5000,
        .onCell (Frame.ack 3 9 9000 SackVec.new).encode 5001])
    t.engine.tx.finAcked = true ∧ (t.run [.pollTransmit 9000]).OneFin 7 ∧
      t.StaysFinished [.pollTransmit 9000] :=
  ⟨by decide +kernel,
    one_fin_and_stays_finished .responder 3 rewinding 0 7 _ _ _ rfl (by decide +kernel)⟩

/-- **The second FIN**: the acknowledgement of the original byte and FIN arrives after the
rewind and before the FIN is sent again. The direction is complete, then the next poll
sends a FIN one past the first, and it is not. -/
theorem second_fin_after_late_ack :
    let t := (Trace.start (Role.responder.engine 3 rewinding 0 7)).run
      (oneByteAndFin ++ [.onTimeout 5000, .onCell (Frame.ack 3 9 9000 SackVec.new).encode 5001])
    t.engine.tx.finAcked = true ∧ t.engine.isSendComplete = true ∧
      ¬(t.run [.pollTransmit 5001]).OneFin 7 ∧ ¬t.StaysFinished [.pollTransmit 5001] ∧
      (t.run [.pollTransmit 5001]).engine.isSendComplete = false := by
  decide +kernel

end Trace

end VeilNetwork.OnionStream
