import VeilNetwork.OnionStream.HalfClose

/-!
# The timers

The driver sleeps until `next_timeout`, the earliest of eight deadlines, and then calls
`on_timeout`. A deadline left in the past would make it wake at once, for ever. This
file shows that none is: whatever `on_timeout` does, every deadline it leaves is later
than the time it was called at, or the endpoint is closed.

Most deadlines are re-armed or cleared by the branch that finds them due. Three need to
know how the endpoint got there, and `TxState.Armed` says what: the retransmission
timeout is positive, the reordering timer runs only if the detector is on, and the
repair timer is never later than the repair of a segment. The first is where the
tunables come in: the timeout starts at `initRtoMs` and is doubled from there, so that
an initial timeout of zero never grows.
-/

namespace VeilNetwork.OnionStream

open Saturating Queue List Option TxState

variable {now : ℕ}

namespace StreamEngine

/-! ### The next timeout -/

variable (e : StreamEngine)

/-- Something could be sent if the pacer allowed it. -/
def pacedSendReady : Bool :=
  if e.tx.segs.any Seg.needsResend then true
  else if Seq.geq e.tx.flight e.effectiveSendWindow then false
  else !e.tx.pending.isEmpty || (e.tx.finRequested && !e.tx.finSent)

/-- The deadlines of an endpoint. -/
def deadlines (includePacing : Bool) : List (Option ℕ) :=
  [e.hsDeadline, e.hsLocalDeadline, e.tx.rto.rtoDeadline, e.tx.rack.rackDeadline,
    e.persistDeadline, e.ackDeadline] ++
  (if e.phase = .established then
    [e.tx.rto.nextSackRepairMs, e.tx.bbr.bbrProbeDeadline e.cfg] else []) ++
  if includePacing ∧ e.phase = .established ∧ e.pacedSendReady then
    [some e.tx.cong.paceNextMs] else []

/-- The earliest time `onTimeout` needs to run again. -/
def nextTimeoutWithPacing (includePacing : Bool) : Option ℕ :=
  (e.deadlines includePacing).foldl (fun t x => x.elim t (minOpt t)) none

end StreamEngine

/-- A deadline that is not set, or still to come. -/
def Later (now : ℕ) (deadline : Option ℕ) : Prop := ∀ d ∈ deadline, now < d

theorem Later.none : Later now none := nofun

theorem Later.some {now d : ℕ} (h : now < d) : Later now (some d) := by
  rintro _ ⟨⟩
  exact h

/-- A deadline that is not due. -/
theorem Later.of_not_due {deadline : Option ℕ}
    (h : ¬(deadline.elim false fun d => decide (d ≤ now)) = true) : Later now deadline := by
  rintro d ⟨⟩
  simpa using h

theorem Later.foldl {l : List (Option ℕ)} {t : Option ℕ} (ht : Later now t)
    (hl : ∀ x ∈ l, Later now x) : Later now (l.foldl (fun t x => x.elim t (minOpt t)) t) := by
  induction l generalizing t with
  | nil => exact ht
  | cons x l ih =>
    obtain ⟨hx, hl⟩ := forall_mem_cons.mp hl
    refine ih ?_ hl
    cases x with
    | none => exact ht
    | some d =>
      refine .some ?_
      cases t with
      | none => exact hx d rfl
      | some c => exact lt_min (ht c rfl) (hx d rfl)

theorem Later.min? {l : List ℕ} (h : ∀ d ∈ l, now < d) : Later now l.min? :=
  fun d hd => h d (min?_mem hd)

/-! ### Deadlines that were armed -/

/-- The repair deadlines of one flight are among those of another. -/
def RepairsWithin (l' l : List Seg) : Prop :=
  ∀ s' ∈ l', ∀ d ∈ s'.sackRepairDeadline, ∃ s ∈ l, s.sackRepairDeadline = some d

namespace RepairsWithin

variable {l l' l'' : List Seg}

theorem trans (h : RepairsWithin l' l) (h' : RepairsWithin l'' l') : RepairsWithin l'' l := by
  intro s'' hs'' d hd
  obtain ⟨s', hs', hd'⟩ := h' s'' hs'' d hd
  exact h s' hs' d hd'

theorem of_subset (h : l' ⊆ l) : RepairsWithin l' l := fun s hs _ hd => ⟨s, h hs, hd⟩

theorem refl (l : List Seg) : RepairsWithin l l := of_subset (List.Subset.refl l)

theorem of_map_eq (h : l'.map Seg.sackRepairDeadline = l.map Seg.sackRepairDeadline) :
    RepairsWithin l' l := by
  intro s' hs' d hd
  have hmem : some d ∈ l.map Seg.sackRepairDeadline := by
    rw [← h, ← show s'.sackRepairDeadline = some d from hd]
    exact mem_map_of_mem hs'
  obtain ⟨s, hs, heq⟩ := mem_map.mp hmem
  exact ⟨s, hs, heq⟩

/-- Each segment keeps its deadline or loses it. -/
theorem of_map {f : Seg → Seg}
    (h : ∀ s ∈ l, (f s).sackRepairDeadline = none ∨
      (f s).sackRepairDeadline = s.sackRepairDeadline) : RepairsWithin (l.map f) l := by
  intro s' hs' d hd
  obtain ⟨s, hs, rfl⟩ := mem_map.mp hs'
  rcases h s hs with hnone | hsame
  · rw [hnone] at hd
    cases hd
  · exact ⟨s, hs, hsame.symm.trans hd⟩

theorem append_fresh {s : Seg} (h : s.sackRepairDeadline = none) : RepairsWithin (l ++ [s]) l := by
  intro s' hs' d hd
  rcases mem_append.mp hs' with hs' | hs'
  · exact ⟨s', hs', hd⟩
  · rw [mem_singleton.mp hs', h] at hd
    cases hd

end RepairsWithin

theorem Seg.ignoresResend_deadline : IgnoresResend Seg.sackRepairDeadline := fun _ _ => rfl

/-- Tunables under which no timer is armed for the time it is armed at. -/
structure Config.Positive (cfg : Config) : Prop where
  handshakeRtoMs : 0 < cfg.handshakeRtoMs
  minRtoMs : 0 < cfg.minRtoMs
  le_maxRtoMs : cfg.minRtoMs ≤ cfg.maxRtoMs

namespace TxState

/-- What the timers rely on: the timeout is positive, the reordering timer runs only for
a detector that is on, and the repair timer is never later than a segment's repair. -/
structure Armed (cfg : Config) (tx : TxState) : Prop where
  positive : cfg.Positive
  rtoMs : 0 < tx.rto.rtoMs
  rack : cfg.rack = false → tx.rack.rackDeadline = none
  repairs : ∀ s ∈ tx.segs, ∀ d ∈ s.sackRepairDeadline, ∃ n ∈ tx.rto.nextSackRepairMs, n ≤ d

namespace Armed

variable {cfg : Config} {tx tx' : TxState}

/-- Changes that concern other fields, or only forget repairs. -/
theorem congr (h : Armed cfg tx) (hms : tx'.rto.rtoMs = tx.rto.rtoMs)
    (hrack : tx'.rack.rackDeadline = tx.rack.rackDeadline)
    (hnext : tx'.rto.nextSackRepairMs = tx.rto.nextSackRepairMs)
    (hsegs : RepairsWithin tx'.segs tx.segs) : Armed cfg tx' := by
  refine ⟨h.positive, hms ▸ h.rtoMs, fun hoff => hrack.trans (h.rack hoff), fun s' hs' d hd => ?_⟩
  obtain ⟨s, hs, hd'⟩ := hsegs s' hs' d hd
  rw [hnext]
  exact h.repairs s hs d hd'

/-- A repair timer computed afresh. -/
theorem refreshed (hpos : cfg.Positive) (hms : 0 < tx.rto.rtoMs)
    (hrack : cfg.rack = false → tx.rack.rackDeadline = none)
    (hnext : tx.rto.nextSackRepairMs = (tx.segs.filterMap Seg.sackRepairDeadline).min?) :
    Armed cfg tx := by
  refine ⟨hpos, hms, hrack, fun s hs d hd => ?_⟩
  have hmem : d ∈ tx.segs.filterMap Seg.sackRepairDeadline := mem_filterMap.mpr ⟨s, hs, hd⟩
  rw [hnext]
  cases hmin : (tx.segs.filterMap Seg.sackRepairDeadline).min? with
  | none => rw [min?_eq_none_iff.mp hmin] at hmem; cases hmem
  | some n => exact ⟨n, rfl, (min?_eq_some_iff.mp hmin).2 d hmem⟩

section

variable (h : Armed cfg tx)

include h

theorem markHoles (fallback : Bool) : Armed cfg (tx.markHoles fallback) :=
  h.congr rfl rfl rfl (.of_map_eq (map_segs_markHoles Seg.ignoresResend_deadline tx fallback))

theorem refreshArmedRepairs : Armed cfg tx.refreshArmedRepairs := by
  rw [TxState.refreshArmedRepairs]
  split
  · exact refreshed h.positive h.rtoMs h.rack rfl
  · exact h

theorem refreshLocalRto (now : ℕ) : Armed cfg (tx.refreshLocalRto now) := by
  have hrto : ∀ (rto : Rto) (segs : List Seg), (rto.refreshLocalRto segs now).rtoMs = rto.rtoMs ∧
      (rto.refreshLocalRto segs now).nextSackRepairMs = rto.nextSackRepairMs := by
    intro rto segs
    rw [Rto.refreshLocalRto]
    split <;> exact ⟨rfl, rfl⟩
  exact h.congr (hrto _ _).1 rfl (hrto _ _).2 (.refl _)

theorem trim (ack : UInt32) : Armed cfg (tx.trimRewoundPendingAfterAck ack) := by
  rw [trimRewoundPendingAfterAck]
  split
  · exact h
  · dsimp only
    split <;> split <;> exact h.congr rfl rfl rfl (.refl _)

theorem requeue : Armed cfg tx.requeueUnsackedFlightForRto :=
  ⟨h.positive, h.rtoMs, h.rack, nofun⟩

end

end Armed

end TxState

/-! ### Acknowledgements -/

namespace Rack

theorem deadline_rackOnDelivery (r : Rack) (sentMs : ℕ) (stop : UInt32) (now frontier : ℕ)
    (retransmitted : Bool) :
    (r.rackOnDelivery sentMs stop now frontier retransmitted).1.rackDeadline = r.rackDeadline := by
  have hexpire (r : Rack) : (r.expireRackReordering now).rackDeadline = r.rackDeadline := by
    rw [expireRackReordering]
    split <;> rfl
  have hobserve (r : Rack) (sample : UInt32) :
      (r.observeRackReordering sample now).rackDeadline = r.rackDeadline := hexpire r
  simp only [rackOnDelivery]
  split
  · repeat' split
    all_goals rfl
  · simp only [apply_ite Prod.fst, apply_ite rackDeadline, hobserve, ite_self]

theorem deadline_noteDsack (r : Rack) (ack : UInt32) (sacks : SackVec) (now : ℕ)
    (ackLimit sndUna sndNxt : UInt32) (rtoMs : ℕ) :
    (r.noteDsack ack sacks now ackLimit sndUna sndNxt rtoMs).rackDeadline = r.rackDeadline := by
  rw [noteDsack]
  dsimp only
  repeat' split
  all_goals rfl

end Rack

namespace StreamEngine

namespace AckContext

variable (c : AckContext)

theorem deadline_rackDelivery (s : Seg) (acc : AckEvidence) :
    (c.rackDelivery s acc).rack.rackDeadline = acc.rack.rackDeadline :=
  Rack.deadline_rackOnDelivery _ _ _ _ _ _

/-- A range forgets the repairs it makes needless. -/
theorem sackSeg_deadlines (r : SackRange) (s : Seg) (acc : AckEvidence) :
    ((c.sackSeg r s acc).1.sackRepairDeadline = none ∨
        (c.sackSeg r s acc).1.sackRepairDeadline = s.sackRepairDeadline) ∧
      (c.sackSeg r s acc).2.rack.rackDeadline = acc.rack.rackDeadline := by
  rw [sackSeg]
  split
  · refine ⟨.inl rfl, ?_⟩
    dsimp only
    split
    · rw [deadline_rackDelivery]
      split <;> split <;> rfl
    · split <;> split <;> rfl
  · exact ⟨.inr rfl, rfl⟩

theorem sackRange_deadlines (r : SackRange) (l : List Seg) (acc : AckEvidence) :
    RepairsWithin (c.sackRange r l acc).1 l ∧
      (c.sackRange r l acc).2.rack.rackDeadline = acc.rack.rackDeadline := by
  induction l generalizing acc with
  | nil => exact ⟨.refl _, rfl⟩
  | cons s l ih =>
    obtain ⟨hs, hrack⟩ := c.sackSeg_deadlines r s acc
    obtain ⟨hl, hrest⟩ := ih (c.sackSeg r s acc).2
    rw [sackRange]
    refine ⟨fun s' hs' d hd => ?_, hrest.trans hrack⟩
    rcases mem_cons.mp hs' with rfl | hs'
    · rcases hs with hnone | hsame
      · rw [hnone] at hd
        cases hd
      · exact ⟨s, mem_cons_self, hsame.symm.trans hd⟩
    · obtain ⟨s₀, hs₀, hd₀⟩ := hl s' hs' d hd
      exact ⟨s₀, mem_cons_of_mem _ hs₀, hd₀⟩

theorem sackRanges_deadlines (rs : List SackRange) (l : List Seg) (acc : AckEvidence) :
    RepairsWithin (c.sackRanges rs l acc).1 l ∧
      (c.sackRanges rs l acc).2.rack.rackDeadline = acc.rack.rackDeadline := by
  induction rs generalizing l acc with
  | nil => exact ⟨.refl _, rfl⟩
  | cons r rs ih =>
    obtain ⟨h₁, h₂⟩ := c.sackRange_deadlines r l acc
    obtain ⟨h₃, h₄⟩ := ih (c.sackRange r l acc).1 (c.sackRange r l acc).2
    exact ⟨h₁.trans h₃, h₄.trans h₂⟩

theorem retireLoop_deadlines (l : List Seg) (acc : AckEvidence) :
    (c.retireLoop l acc).1 ⊆ l ∧
      (c.retireLoop l acc).2.rack.rackDeadline = acc.rack.rackDeadline := by
  have htiming (s : Seg) (acc : AckEvidence) : (c.retireTiming s acc).rack = acc.rack := by
    rw [retireTiming]
    split
    · rfl
    · dsimp only
      split <;> split <;> try split
      all_goals rfl
  have hseg (s : Seg) (acc : AckEvidence) :
      (c.retireSeg s acc).rack.rackDeadline = acc.rack.rackDeadline := by
    rw [retireSeg]
    split
    · rw [deadline_rackDelivery, htiming]
      split <;> rfl
    · rw [htiming]
      split <;> rfl
  induction l generalizing acc with
  | nil => exact ⟨List.Subset.refl _, rfl⟩
  | cons s l ih =>
    rw [retireLoop]
    split
    · obtain ⟨h₁, h₂⟩ := ih (c.retireSeg s acc)
      exact ⟨subset_cons_of_subset s h₁, h₂.trans (hseg s acc)⟩
    · exact ⟨List.Subset.refl _, rfl⟩

end AckContext

/-- What the timers rely on in an endpoint. -/
def Armed (e : StreamEngine) : Prop := e.tx.Armed e.cfg

namespace Armed

variable {e : StreamEngine}

theorem syncLocalRto (h : e.Armed) (now : ℕ) : (e.syncLocalRto now).Armed := by
  rw [StreamEngine.syncLocalRto]
  split
  · exact .refreshLocalRto h now
  · exact h

theorem rackDetectLoss (h : e.Armed) (hrack : e.cfg.rack = true) (now : ℕ) :
    (e.rackDetectLoss now).1.Armed := by
  have hon : ∀ {P : Prop}, e.cfg.rack = false → P := fun hoff => by
    rw [hrack] at hoff
    cases hoff
  rw [StreamEngine.rackDetectLoss]
  split
  · exact ⟨h.positive, h.rtoMs, fun hoff => hon hoff, h.repairs⟩
  · refine ⟨h.positive, h.rtoMs, fun hoff => hon hoff, fun s hs d hd => ?_⟩
    obtain ⟨s₀, hs₀, hd₀⟩ := RepairsWithin.of_map_eq
      (map_rackVerdict Seg.ignoresResend_deadline _ _ _ _ e.tx.segs) s hs d hd
    exact h.repairs s₀ hs₀ d hd₀

theorem rackRecover (h : e.Armed) (hrack : e.cfg.rack = true) (now : ℕ) :
    (e.rackRecover now).Armed := by
  have hdetect := h.rackDetectLoss hrack now
  rw [StreamEngine.rackRecover]
  dsimp only
  split
  · exact { hdetect with }
  · exact hdetect

variable {e' : StreamEngine}

section

variable (h : e.Armed)

include h

/-- Changes that concern neither the timeout nor the two timers. -/
theorem congr (hcfg : e'.cfg = e.cfg)
    (hrto : e'.tx.rto.rtoMs = e.tx.rto.rtoMs ∧
      e'.tx.rto.nextSackRepairMs = e.tx.rto.nextSackRepairMs)
    (hrack : e'.tx.rack.rackDeadline = e.tx.rack.rackDeadline)
    (hsegs : RepairsWithin e'.tx.segs e.tx.segs) : e'.Armed := by
  rw [Armed, hcfg]
  exact .congr h hrto.1 hrack hrto.2 hsegs

theorem of_tx (hcfg : e'.cfg = e.cfg) (htx : e'.tx = e.tx) :
    e'.Armed := by
  rwa [Armed, hcfg, htx]

theorem ackWindow (ack win : UInt32) (now : ℕ) : (e.ackWindow ack win now).Armed := by
  rw [StreamEngine.ackWindow]
  split
  · split <;> split <;> exact { h with }
  · exact h

theorem ackProbe (ack : UInt32) (reopened refused : Bool) (now : ℕ) :
    (e.ackProbe ack reopened refused now).Armed := by
  rw [StreamEngine.ackProbe]
  split
  · exact { h with }
  · split
    · exact h.congr rfl ⟨rfl, rfl⟩ rfl
        (.of_map_eq (map_updateFirst (fun s _ => Seg.ignoresResend_deadline s true) _))
    · exact h

theorem ackGrowth (ack acked : UInt32) : (e.ackGrowth ack acked).Armed := by
  rw [StreamEngine.ackGrowth]
  split
  · split
    · exact { h with }
    · split
      · exact { h with }
      · exact h.congr rfl ⟨rfl, rfl⟩ rfl
          (.of_map_eq (map_segs_markHoles Seg.ignoresResend_deadline e.tx true))
  · split <;> exact { h with }

theorem ackDuplicate : e.ackDuplicate.Armed := by
  have hholes (fallback : Bool) := RepairsWithin.of_map_eq
    (map_segs_markHoles Seg.ignoresResend_deadline e.tx fallback)
  rw [StreamEngine.ackDuplicate]
  dsimp only
  split
  · exact h.congr rfl ⟨rfl, rfl⟩ rfl (hholes true)
  · split
    · split
      · exact { h with }
      · exact h.congr rfl ⟨rfl, rfl⟩ rfl (hholes false)
    · exact { h with }

/-- Every estimate of the timeout is at least the configured minimum. -/
theorem ackTiming (acc : AckEvidence) (now : ℕ) : (e.ackTiming acc now).Armed := by
  have hmin := h.positive.minRtoMs
  have hclamp (ms : ℕ) : 0 < clamp64 ms e.cfg.minRtoMs e.cfg.maxRtoMs :=
    lt_min (hmin.trans_le (le_max_right _ _)) (hmin.trans_le h.positive.le_maxRtoMs)
  have hset (rto : Rto)
      (hrto : 0 < rto.rtoMs ∧ rto.nextSackRepairMs = e.tx.rto.nextSackRepairMs) :
      StreamEngine.Armed { e with tx.rto := rto.armOrClearRto e.tx.segs now } := by
    refine ⟨h.positive, hrto.1, h.rack, fun s hs d hd => ?_⟩
    show ∃ n ∈ rto.nextSackRepairMs, n ≤ d
    rw [hrto.2]
    exact h.repairs s hs d hd
  -- a deferred sample only raises the timeout
  have hraise (rto : Rto)
      (hrto : 0 < rto.rtoMs ∧ rto.nextSackRepairMs = e.tx.rto.nextSackRepairMs) :
      StreamEngine.Armed { e with tx.rto := (acc.deferredSackRtt.elim rto fun r =>
        rto.raiseRtoFromDeferredSample r e.cfg).armOrClearRto e.tx.segs now } := by
    refine hset _ ?_
    cases acc.deferredSackRtt with
    | none => exact hrto
    | some r =>
      rw [elim_some, Rto.raiseRtoFromDeferredSample]
      split
      · exact hrto
      · exact ⟨(hclamp _).trans_le (le_max_right _ _), hrto.2⟩
  refine syncLocalRto ?_ now
  cases acc.rttSample.or acc.freshSackRtt with
  | none => exact hraise _ ⟨h.rtoMs, rfl⟩
  | some r =>
    refine hraise _ ⟨hclamp _, ?_⟩
    dsimp only [Rto.updateRto]
    split <;> rfl

theorem ackAdvance (c : AckContext) (acc : AckEvidence)
    (hacc : acc.rack.rackDeadline = e.tx.rack.rackDeadline) : (e.ackAdvance c acc).1.Armed := by
  obtain ⟨hsub, hrack⟩ := c.retireLoop_deadlines e.tx.segs { acc with finAcked := e.tx.finAcked }
  have hoverlap (l : List Seg) (a : AckEvidence) : (c.partialOverlap l a).rack = a.rack := by
    rw [AckContext.partialOverlap]
    split
    · dsimp only
      split <;> rfl
    · rfl
  refine .trim ?_ c.ack
  refine .congr h rfl ?_ rfl (.of_subset hsub)
  rw [hoverlap]
  exact hrack.trans hacc

theorem ackCumulative (c : AckContext) (acc : AckEvidence)
    (hacc : acc.rack.rackDeadline = e.tx.rack.rackDeadline) : (e.ackCumulative c acc).1.Armed := by
  have harmed := h.ackAdvance c acc hacc
  rw [StreamEngine.ackCumulative]
  generalize e.ackAdvance c acc = r at harmed
  have hreset : StreamEngine.Armed { r.1 with tx.cong.dupAcks := 0, tx.rto.consecRto := 0 } :=
    { harmed with }
  have hgrown := hreset.ackGrowth c.ack (c.ack - e.tx.sndUna)
  refine ackTiming ?_ _ _
  split
  · exact { hgrown with }
  · exact hgrown

theorem ackFinish (ack : UInt32) (sacks : SackVec) (acc : AckEvidence) (now : ℕ) :
    (e.ackFinish ack sacks acc now).Armed := by
  have hrates : (e.ackRates acc now).Armed := by
    rw [ackRates]
    split
    · exact { h with }
    · exact h
  have hrack : ((e.ackRates acc now).ackRack ack sacks acc now).Armed := by
    generalize e.ackRates acc now = e₁ at hrates
    rw [ackRack]
    have hrtt : (acc.rackRttSample.elim e₁ fun rtt =>
        { e₁ with tx.rack.rackRttMs := rtt }).Armed := by
      cases acc.rackRttSample with
      | none => exact hrates
      | some rtt => exact { hrates with }
    split
    next hon =>
      refine rackRecover ?_ ?_ now
      · exact hrtt.congr rfl ⟨rfl, rfl⟩ (Rack.deadline_noteDsack _ _ _ _ _ _ _ _)
          (.refl _)
      · exact hon
    · exact hrtt
  exact .refreshArmedRepairs (hrack.syncLocalRto now)

theorem ackAccepted (ack win : UInt32) (sacks : SackVec) (now : ℕ) :
    (e.ackAccepted ack win sacks now).Armed := by
  have hwindow := h.ackWindow ack win now
  rw [StreamEngine.ackAccepted]
  generalize e.ackWindow ack win now = e₁ at hwindow
  dsimp only
  refine ackFinish ?_ ack sacks _ now
  generalize hr : AckContext.sackRanges _ sacks.ranges e₁.tx.segs _ = r
  have hsacked : StreamEngine.Armed
      { e₁ with tx := { e₁.tx with segs := r.1, rack := r.2.rack } } := by
    rw [← hr]
    exact hwindow.congr rfl ⟨rfl, rfl⟩ (AckContext.sackRanges_deadlines _ _ _ _).2
      (AckContext.sackRanges_deadlines _ _ _ _).1
  have hprobe (reopened refused : Bool) := hsacked.ackProbe ack reopened refused now
  have hrack₂ (reopened refused : Bool) : (StreamEngine.ackProbe
      { e₁ with tx := { e₁.tx with segs := r.1, rack := r.2.rack } } ack reopened refused
      now).tx.rack = r.2.rack := by
    rw [StreamEngine.ackProbe]
    split
    · rfl
    · split <;> rfl
  split
  · refine ackCumulative (hprobe _ _) _ _ ?_
    rw [hrack₂]
  · split
    · exact (hprobe _ _).ackDuplicate
    · exact hprobe _ _

/-- A cell changes the sender through an acknowledgement only. -/
theorem onCell (cell : List UInt8) (now : ℕ) : (e.onCell cell now).Armed := by
  have hprogress : e.notePeerProgress.Armed := by
    rw [notePeerProgress]
    split
    · exact { h with }
    · exact h
  have hdata (seq win : UInt32) (payload : List UInt8) : (e.onData seq win payload now).Armed := by
    rw [onData]
    split
    · exact h
    · split
      · exact hprogress
      · simp only [ackData]
        split <;> split <;> split <;> try split
        all_goals exact { hprogress with }
  rw [StreamEngine.onCell]
  split
  · exact h
  · split
    · exact h
    · split
      · rw [onSyn]
        split
        · exact { h with }
        · exact { h with }
        · exact h
      · rw [onSynack]
        split
        · split
          · exact h
          · exact { h with }
        · split
          · exact { h with }
          · exact h
      · exact hdata _ _ _
      · rw [onAck]
        split
        · exact hprogress
        · split
          · exact hprogress
          · exact hprogress.ackAccepted _ _ _ now
      · rw [onPeerFin]
        split
        · exact h
        · refine hprogress.of_tx ?_ ?_ <;> dsimp only [ackNow] <;> split <;> rfl
      · rw [onRst]
        split
        · exact { h with }
        · exact h

theorem refillPace (now : ℕ) : (e.refillPace now).Armed := by
  rw [StreamEngine.refillPace]
  split
  · exact { h with }
  · exact h

/-- A segment that goes out again loses its repair deadline. -/
theorem resend (s : Seg) (now : ℕ) : (e.resend s now).Armed := by
  have hmark : (e.markResent now).Armed := by
    refine .refreshArmedRepairs ?_
    refine .congr h rfl rfl rfl fun s' hs' d hd => ?_
    rcases mem_updateFirst hs' with hs' | ⟨s₀, _, rfl⟩
    · exact ⟨s', hs', hd⟩
    · exact absurd hd (by simp [resent])
  have hrecord : ((e.markResent now).recordResend s now).Armed := by
    rw [recordResend]
    split
    · refine hmark.congr rfl ⟨rfl, rfl⟩ ?_ (.refl _)
      simp only [Rack.recordRackRepair, apply_ite Rack.rackDeadline, ite_self]
    · exact hmark
  refine syncLocalRto ?_ now
  rw [resendProbe]
  split
  · split
    · refine hrecord.congr rfl ?_ rfl (.refl _)
      split <;> exact ⟨rfl, rfl⟩
    · exact hrecord
  · exact hrecord

/-- A new segment has no repair deadline. -/
theorem createNextSegment (hnew : e.createNextSegment now = some e') : e'.Armed := by
  have harm {e : StreamEngine} (h : e.Armed) : (e.armRto now).Armed := by
    rw [armRto]
    split
    · exact { h with }
    · exact h
  rw [StreamEngine.createNextSegment] at hnew
  split at hnew
  · cases hnew
  · split at hnew
    · dsimp only at hnew
      split at hnew
      · cases hnew
      · cases hnew
        refine harm ?_
        exact h.congr rfl ⟨rfl, rfl⟩ rfl (.append_fresh rfl)
    · split at hnew
      · cases hnew
        refine harm ?_
        exact h.congr rfl ⟨rfl, rfl⟩ rfl (.append_fresh rfl)
      · cases hnew

theorem pollAck {cell : List UInt8} (hack : e.pollAck = some (e', cell)) : e'.Armed := by
  rw [StreamEngine.pollAck] at hack
  split at hack
  · cases hack
  · cases hack
    exact { h with }

theorem pollStream (now : ℕ) (allowNew : Bool) : (e.pollStream now allowNew).1.Armed := by
  have hstreams := streams_pollStream e now allowNew
  have hpaced {e₁ : StreamEngine} (hpace : e₁ = e ∨ e₁ = e.refillPace now) : e₁.Armed := by
    rcases hpace with rfl | rfl
    · exact h
    · exact h.refillPace now
  generalize e.pollStream now allowNew = r at hstreams
  cases hstreams with
  | again hphase hs => exact { (h.refillPace now).resend _ now with }
  | next hphase hnew hs => exact { (h.refillPace now).createNextSegment hnew with }
  | ack hpace hack => exact (hpaced hpace).pollAck hack
  | idle hpace => exact { hpaced hpace with }

theorem pollTransmitInner (now : ℕ) (allowNew : Bool) :
    (e.pollTransmitInner now allowNew).1.Armed := by
  have hprobe : StreamEngine.Armed { e with tx.bbr := e.tx.bbr.advanceBbrProbe now e.cfg } :=
    { h with }
  have hqueue {e : StreamEngine} (h : e.Armed) : (e.queueHandshake now).Armed := by
    rw [queueHandshake]
    split
    · exact { h with }
    · exact h
  rw [StreamEngine.pollTransmitInner]
  split
  · exact { hprobe with }
  · split
    · refine hqueue ?_
      exact { hprobe with }
    · split
      · refine hqueue ?_
        exact { hprobe with }
      · exact hprobe.pollStream now allowNew

theorem localHandoff (accepted : List LocalTransmit) (now : ℕ) :
    (e.localHandoff accepted now).Armed := by
  have hopen : (e.handOffHandshake accepted now).Armed := by
    refine h.of_tx ?_ ?_
    · simp only [handOffHandshake, apply_ite StreamEngine.cfg, ite_self]
    · simp only [handOffHandshake, apply_ite StreamEngine.tx, ite_self]
  rw [StreamEngine.localHandoff]
  split
  · exact h
  · refine .refreshLocalRto (.refreshArmedRepairs ?_) now
    refine .congr hopen rfl rfl rfl (.of_map fun s _ => ?_)
    rw [handOffSeg]
    split
    · exact .inl rfl
    · exact .inr rfl

theorem discardReceivedCell (cell : List UInt8) :
    (e.discardReceivedCell cell).1.Armed := by
  rw [StreamEngine.discardReceivedCell]
  split
  · exact h
  · split
    · exact h
    · dsimp only
      split
      · exact h
      · refine h.congr rfl ⟨rfl, rfl⟩ rfl (.of_map fun s _ => .inr ?_)
        split <;> rfl

end

end Armed

/-! ### The timers, one after another -/

/-- The deadlines other than those of the data timers. -/
structure Opened (now : ℕ) (e : StreamEngine) : Prop where
  hs : Later now e.hsDeadline
  hsLocal : Later now e.hsLocalDeadline
  ack : Later now e.ackDeadline
  rack : Later now e.tx.rack.rackDeadline
  probe : Later now (e.tx.bbr.bbrProbeDeadline e.cfg)

/-- The deadline of a probe that has not ended. -/
theorem later_advanceBbrProbe (b : Bbr) (now : ℕ) (cfg : Config) :
    Later now ((b.advanceBbrProbe now cfg).bbrProbeDeadline cfg) := by
  rw [Bbr.advanceBbrProbe]
  split
  next deadline _ hdeadline =>
    split
    next hlt =>
      rw [hdeadline]
      exact .some hlt
    · repeat' split
      all_goals exact .none
  next hnone =>
    rintro d hd
    cases hprobe : b.bbrRttProbe with
    | none => exact absurd hd (by simp [Bbr.bbrProbeDeadline, hprobe])
    | some probe => exact absurd hd (hnone probe d hprobe)

variable (e : StreamEngine) (now : ℕ)

theorem later_ackTimer :
    Later now (e.ackTimer now).ackDeadline ∧
      ((e.ackTimer now).synAcked = true → (e.ackTimer now).hsDeadline = none) := by
  rw [ackTimer]
  split
  · split
    · exact ⟨.none, fun _ => rfl⟩
    next hacked => exact ⟨.none, fun h => absurd h hacked⟩
  next hdue =>
    split
    · exact ⟨.of_not_due hdue, fun _ => rfl⟩
    next hacked => exact ⟨.of_not_due hdue, fun h => absurd h hacked⟩

/-- The handshake timer declares the endpoint dead, or is due later. -/
theorem later_handshakeTimer {e : StreamEngine} (hpos : 0 < e.cfg.handshakeRtoMs)
    (hacked : e.synAcked = true → e.hsDeadline = none) :
    ((e.handshakeTimer now).2 = true ∧ (e.handshakeTimer now).1.phase = .closed) ∨
      ((e.handshakeTimer now).2 = false ∧ Later now (e.handshakeTimer now).1.hsDeadline) := by
  rw [handshakeTimer]
  split
  · dsimp only
    split
    · exact .inl ⟨rfl, rfl⟩
    · refine .inr ⟨rfl, ?_⟩
      split
      · exact .none
      · exact .some (Nat.lt_add_of_pos_right hpos)
  next hdue =>
    refine .inr ⟨rfl, ?_⟩
    cases hs : e.synAcked with
    | true =>
      rw [hacked hs]
      exact .none
    | false =>
      refine .of_not_due fun h => hdue ?_
      rw [h, hs]
      rfl

theorem frame_handshakeTimer :
    (e.handshakeTimer now).1.tx = e.tx ∧ (e.handshakeTimer now).1.cfg = e.cfg ∧
      (e.handshakeTimer now).1.hsLocalDeadline = e.hsLocalDeadline ∧
      (e.handshakeTimer now).1.ackDeadline = e.ackDeadline := by
  rw [handshakeTimer]
  dsimp only
  repeat' split
  all_goals exact ⟨rfl, rfl, rfl, rfl⟩

/-- The detector leaves only deadlines that are still to come. -/
theorem later_rackRecover : Later now (e.rackRecover now).tx.rack.rackDeadline := by
  have hdetect : Later now (e.rackDetectLoss now).1.tx.rack.rackDeadline := by
    rw [rackDetectLoss]
    split
    · exact .none
    · refine Later.min? fun d hd => ?_
      obtain ⟨v, hv, hd⟩ := mem_filterMap.mp hd
      obtain ⟨s, _, rfl⟩ := mem_map.mp hv
      rw [rackVerdict] at hd
      split at hd
      · cases hd
      · split at hd
        · cases hd
        next hlt =>
          rw [← some.inj hd]
          exact not_le.mp hlt
  rw [rackRecover]
  dsimp only
  split <;> exact hdetect

end StreamEngine

namespace TxState

variable {cfg : Config} {tx : TxState}

/-- A repair timer computed afresh from repairs that are still to come. -/
theorem later_refreshed (rto : Rto) {segs : List Seg}
    (h : ∀ s ∈ segs, Later now s.sackRepairDeadline) :
    Later now (rto.refreshSackRepairDeadline segs).nextSackRepairMs := by
  refine Later.min? fun d hd => ?_
  obtain ⟨s, hs, hd⟩ := mem_filterMap.mp hd
  exact h s hs d hd

theorem Armed.later_repairs (h : Armed cfg tx) (hnext : Later now tx.rto.nextSackRepairMs) :
    ∀ s ∈ tx.segs, Later now s.sackRepairDeadline := by
  intro s hs d hd
  obtain ⟨n, hn, hle⟩ := h.repairs s hs d hd
  exact (hnext n hn).trans_le hle

/-- Every repair that is due is made. -/
theorem Armed.markDueSackRepairs (h : Armed cfg tx) (now : ℕ) :
    Armed cfg (tx.markDueSackRepairs now) ∧
      Later now (tx.markDueSackRepairs now).rto.nextSackRepairMs := by
  rw [TxState.markDueSackRepairs]
  split
  next hnot =>
    refine ⟨h, fun d hd => ?_⟩
    rw [show tx.rto.nextSackRepairMs = some d from hd] at hnot
    exact of_decide_eq_true hnot
  · refine ⟨refreshed h.positive h.rtoMs h.rack rfl, later_refreshed _ fun s' hs' => ?_⟩
    obtain ⟨s, _, rfl⟩ := mem_map.mp hs'
    rw [dueRepair]
    split
    · exact .none
    next hdue => exact .of_not_due hdue

theorem later_expireRepairsFrom (expiredRtoMs : ℕ) {l : List Seg}
    (h : ∀ s ∈ l, Later now s.sackRepairDeadline) :
    ∀ s ∈ (expireRepairsFrom now expiredRtoMs l).1, Later now s.sackRepairDeadline := by
  induction l with
  | nil => exact h
  | cons s l ih =>
    obtain ⟨hs, hl⟩ := forall_mem_cons.mp h
    have hrest := ih hl
    rw [expireRepairsFrom]
    dsimp only
    split
    · exact forall_mem_cons.mpr ⟨hs, hrest⟩
    · split
      · split
        · exact forall_mem_cons.mpr ⟨.none, hrest⟩
        next hlt =>
          refine forall_mem_cons.mpr ⟨.some ?_, hrest⟩
          cases hd : s.sackRepairDeadline with
          | none => exact not_le.mp hlt
          | some d => exact lt_min (hs d hd) (not_le.mp hlt)
      · exact forall_mem_cons.mpr ⟨hs, hrest⟩

end TxState

namespace StreamEngine

variable {e : StreamEngine}

/-- What the data timers leave alone. -/
def others (e : StreamEngine) : Option ℕ × Option ℕ × Option ℕ × Rack × Bbr × Config :=
  (e.hsDeadline, e.hsLocalDeadline, e.ackDeadline, e.tx.rack, e.tx.bbr, e.cfg)

theorem others_syncLocalRto (e : StreamEngine) (now : ℕ) :
    (e.syncLocalRto now).others = e.others := by
  rw [syncLocalRto]
  split <;> rfl

/-- The state of the data timers after a repair: the timer of a flight on the network
is ahead, and so are its repairs. -/
structure Repaired (now : ℕ) (e : StreamEngine) : Prop where
  armed : e.Armed
  rto : Later now e.tx.rto.rtoDeadline
  repairs : Later now e.tx.rto.nextSackRepairMs

theorem Repaired.syncLocalRto
    (hset : Repaired now e ∧ (e.tx.segs = [] ∨ e.tx.rto.rtoDeadline.isSome)) :
    Repaired now (e.syncLocalRto now) := by
  obtain ⟨h, hset⟩ := hset
  refine ⟨h.armed.syncLocalRto now, ?_, ?_⟩
  · rw [StreamEngine.syncLocalRto]
    split
    · show Later now (e.tx.rto.refreshLocalRto e.tx.segs now).rtoDeadline
      rw [Rto.refreshLocalRto]
      split
      · exact .none
      next hfirst =>
        rcases hset with hnil | hsome
        · rw [hnil] at hfirst
          cases hfirst
        · obtain ⟨d, hd⟩ := isSome_iff_exists.mp hsome
          -- following the segments can only move the timer further ahead
          refine .some ((h.rto d hd).trans_le ?_)
          rw [hd]
          exact le_max_left _ _
    · exact h.rto
  · rw [StreamEngine.syncLocalRto]
    split
    · show Later now (e.tx.rto.refreshLocalRto e.tx.segs now).nextSackRepairMs
      rw [Rto.refreshLocalRto]
      split <;> exact h.repairs
    · exact h.repairs

/-- Every way to repair a timeout restarts the timer or has nothing left in flight. -/
theorem repaired_rtoRepair (h : e.Armed) (hrepairs : Later now e.tx.rto.nextSackRepairMs)
    (ssthresh : UInt32) (rewind : Bool) (expiredRtoMs : ℕ) :
    Repaired now (e.rtoRepair ssthresh rewind expiredRtoMs now) ∧
      ((e.rtoRepair ssthresh rewind expiredRtoMs now).tx.segs = [] ∨
        (e.rtoRepair ssthresh rewind expiredRtoMs now).tx.rto.rtoDeadline.isSome) := by
  have holdest {tx : TxState} (h : tx.Armed e.cfg) : tx.markOldestUnsackedForRto.Armed e.cfg :=
    h.congr rfl rfl rfl
      (.of_map_eq (map_segs_markOldestUnsackedForRto Seg.ignoresResend_deadline tx))
  rw [rtoRepair]
  split
  · refine ⟨⟨?_, Later.none, Later.none⟩, .inl rfl⟩
    exact TxState.Armed.congr (TxState.Armed.requeue h) rfl rfl rfl
      (.refl _)
  · split
    · have hholes := TxState.Armed.markHoles h true
      have hlater := hholes.later_repairs hrepairs
      have hexpired : ((e.tx.markHoles true).markExpiredSackRepairs now expiredRtoMs).Armed e.cfg :=
        .refreshed hholes.positive hholes.rtoMs hholes.rack rfl
      refine ⟨⟨?_, Later.some (Nat.lt_add_of_pos_right h.rtoMs), ?_⟩, .inr rfl⟩
      · exact { holdest hexpired with }
      · exact later_refreshed e.tx.rto (later_expireRepairsFrom expiredRtoMs hlater)
    · refine ⟨⟨?_, Later.some (Nat.lt_add_of_pos_right h.rtoMs), hrepairs⟩, .inr rfl⟩
      exact { holdest h with }

theorem others_rtoRepair (e : StreamEngine) (ssthresh : UInt32) (rewind : Bool)
    (expiredRtoMs now : ℕ) : (e.rtoRepair ssthresh rewind expiredRtoMs now).others = e.others := by
  rw [rtoRepair]
  split
  · rfl
  · split <;> rfl

/-- The data timer gives up, or its timers are ahead. -/
theorem dataTimer_cases (h : e.Armed) (hrepairs : Later now e.tx.rto.nextSackRepairMs) :
    (e.dataTimer now).1.Armed ∧ (e.dataTimer now).1.others = e.others ∧
      ((e.dataTimer now).2 = true ∧ (e.dataTimer now).1.phase = .closed ∨
        (e.dataTimer now).2 = false ∧ Repaired now (e.dataTimer now).1) := by
  have hsame {e' : StreamEngine} (h' : Repaired now e') (hothers : e'.others = e.others) :
      e'.Armed ∧ e'.others = e.others ∧ (false = true ∧ e'.phase = .closed ∨
        false = false ∧ Repaired now e') := ⟨h'.armed, hothers, .inr ⟨rfl, h'⟩⟩
  have hkeep (segs : List Seg) (hsegs : RepairsWithin segs e.tx.segs) : Repaired now
      { e with tx := { e.tx with segs := segs, rto := { e.tx.rto with rtoDeadline := none } } } :=
    ⟨h.congr rfl ⟨rfl, rfl⟩ rfl hsegs, Later.none, hrepairs⟩
  rw [dataTimer]
  split
  next hnot =>
    refine hsame ⟨h, fun d hd => ?_, hrepairs⟩ rfl
    rw [show e.tx.rto.rtoDeadline = some d from hd] at hnot
    exact of_decide_eq_true hnot
  · split
    · exact hsame (hkeep _ (.refl _)) rfl
    · split
      · refine hsame (hkeep _ (.of_map_eq ?_)) rfl
        exact map_updateFirst (fun s _ => Seg.ignoresResend_deadline s true) _
      · rw [dataRto]
        split
        · refine ⟨?_, rfl, .inl ⟨rfl, rfl⟩⟩
          exact { h with }
        · -- the doubled timeout is still positive, by the bounds of the tunables
          have hdoubled : 0 < min (e.tx.rto.rtoMs * 2) e.cfg.maxRtoMs :=
            lt_min (Nat.mul_pos h.rtoMs Nat.two_pos)
              (h.positive.minRtoMs.trans_le h.positive.le_maxRtoMs)
          refine hsame ?_ ?_
          · refine .syncLocalRto (repaired_rtoRepair ?_ ?_ _ _ _)
            · exact ⟨h.positive, hdoubled, h.rack, h.repairs⟩
            · exact hrepairs
          · rw [others_syncLocalRto, others_rtoRepair]
            rfl

theorem later_persistTimer (h : e.Armed) (now : ℕ) :
    Later now (e.persistTimer now).persistDeadline := by
  rw [persistTimer]
  split
  · split
    · exact .some (Nat.lt_add_of_pos_right (h.rtoMs.trans_le (le_max_left _ _)))
    · exact .none
  next hdue => exact .of_not_due hdue

theorem frame_persistTimer (e : StreamEngine) (now : ℕ) :
    (e.persistTimer now).tx = e.tx ∧ (e.persistTimer now).others = e.others := by
  rw [persistTimer]
  repeat' split
  all_goals exact ⟨rfl, rfl⟩

theorem Opened.of_others {e' : StreamEngine} (h : Opened now e) (heq : e'.others = e.others) :
    Opened now e' := by
  simp only [others, Prod.mk.injEq] at heq
  obtain ⟨h₁, h₂, h₃, h₄, h₅, h₆⟩ := heq
  refine ⟨?_, ?_, ?_, ?_, ?_⟩
  · rw [h₁]
    exact h.hs
  · rw [h₂]
    exact h.hsLocal
  · rw [h₃]
    exact h.ack
  · rw [h₄]
    exact h.rack
  · rw [h₅, h₆]
    exact h.probe

theorem rackTimer_cases (h : e.Armed) (now : ℕ) :
    (e.rackTimer now).Armed ∧ Later now (e.rackTimer now).tx.rack.rackDeadline := by
  rw [rackTimer]
  split
  next hdue =>
    obtain ⟨hon, -⟩ := Bool.and_eq_true_iff.mp hdue
    exact ⟨h.rackRecover hon now, later_rackRecover e now⟩
  next hdue =>
    refine ⟨h, ?_⟩
    cases hon : e.cfg.rack with
    | true =>
      refine .of_not_due fun hlate => hdue ?_
      rw [hon, hlate]
      rfl
    | false =>
      rw [h.rack hon]
      exact .none

theorem frame_rackTimer (e : StreamEngine) (now : ℕ) :
    (e.rackTimer now).hsDeadline = e.hsDeadline ∧
      (e.rackTimer now).hsLocalDeadline = e.hsLocalDeadline ∧
      (e.rackTimer now).ackDeadline = e.ackDeadline ∧
      (e.rackTimer now).tx.bbr = e.tx.bbr ∧ (e.rackTimer now).cfg = e.cfg := by
  rw [rackTimer]
  split
  · rw [rackRecover, rackDetectLoss]
    dsimp only
    split <;> split <;> exact ⟨rfl, rfl, rfl, rfl, rfl⟩
  · exact ⟨rfl, rfl, rfl, rfl, rfl⟩

/-- The timers of the flight, after the others. -/
theorem dataTimers_cases (h : e.Armed) (hopen : Opened now e) (r : StreamEngine × Bool)
    (hr : dataTimer { e with tx := e.tx.markDueSackRepairs now } now = r) :
    (if r.2 = true then r.1 else r.1.persistTimer now).Armed ∧
      ((if r.2 = true then r.1 else r.1.persistTimer now).phase = .closed ∨
        Later now ((if r.2 = true then r.1 else r.1.persistTimer now).nextTimeoutWithPacing
          false)) := by
  obtain ⟨hdue, hnext⟩ := TxState.Armed.markDueSackRepairs h now
  obtain ⟨harmed, hothers, hcases⟩ :=
    dataTimer_cases (e := { e with tx := e.tx.markDueSackRepairs now }) hdue hnext
  rw [hr] at harmed hothers hcases
  have hkept : StreamEngine.others { e with tx := e.tx.markDueSackRepairs now } = e.others := by
    simp only [others, markDueSackRepairs, apply_ite rack, apply_ite bbr,
      ite_self]
  rcases hcases with ⟨hdead, hclosed⟩ | ⟨hdead, hrepaired⟩
  · rw [if_pos hdead]
    exact ⟨harmed, .inl hclosed⟩
  · rw [if_neg (by rw [hdead]; exact Bool.false_ne_true)]
    obtain ⟨htx, hframe⟩ := frame_persistTimer r.1 now
    have hlast := hopen.of_others (hframe.trans (hothers.trans hkept))
    have hpersist := later_persistTimer harmed now
    refine ⟨?_, .inr (.foldl Later.none fun x hx => ?_)⟩
    · exact harmed.of_tx (congrArg (fun o => o.2.2.2.2.2) hframe) htx
    · simp only [deadlines, Bool.false_eq_true, false_and, if_false, mem_append, mem_cons,
        not_mem_nil, or_false] at hx
      rcases hx with (rfl | rfl | rfl | rfl | rfl | rfl) | hx
      · exact hlast.hs
      · exact hlast.hsLocal
      · rw [htx]
        exact hrepaired.rto
      · exact hlast.rack
      · exact hpersist
      · exact hlast.ack
      · split at hx
        · simp only [mem_cons, not_mem_nil, or_false] at hx
          rcases hx with rfl | rfl
          · rw [htx]
            exact hrepaired.repairs
          · exact hlast.probe
        · cases hx

/-- **Whatever is due is dealt with.** From an armed endpoint, `onTimeout` closes it or
leaves no deadline that has passed. -/
theorem Armed.onTimeout (h : e.Armed) (now : ℕ) :
    (e.onTimeout now).Armed ∧ ((e.onTimeout now).phase = .closed ∨
      Later now ((e.onTimeout now).nextTimeoutWithPacing false)) := by
  rw [StreamEngine.onTimeout]
  split
  next hclosed => exact ⟨h, .inl hclosed⟩
  · have hprobed : StreamEngine.Armed { e with tx.bbr := e.tx.bbr.advanceBbrProbe now e.cfg } :=
      { h with }
    have hprobe := later_advanceBbrProbe e.tx.bbr now e.cfg
    generalize he₁ : { e with tx.bbr := e.tx.bbr.advanceBbrProbe now e.cfg } = e₁ at hprobed
    have hprobe₁ : Later now (e₁.tx.bbr.bbrProbeDeadline e₁.cfg) := by
      rwa [← he₁]
    dsimp only
    split
    · exact ⟨{ hprobed with }, .inl rfl⟩
    next hlocal =>
      obtain ⟨hack, hacked⟩ := later_ackTimer e₁ now
      have hackFrame : (e₁.ackTimer now).tx = e₁.tx ∧ (e₁.ackTimer now).cfg = e₁.cfg ∧
          (e₁.ackTimer now).hsLocalDeadline = e₁.hsLocalDeadline := by
        rw [ackTimer]
        split <;> split <;> exact ⟨rfl, rfl, rfl⟩
      generalize e₁.ackTimer now = e₂ at hack hacked hackFrame
      obtain ⟨htx₂, hcfg₂, hlocal₂⟩ := hackFrame
      have hs := later_handshakeTimer now (hcfg₂ ▸ hprobed.positive.handshakeRtoMs) hacked
      obtain ⟨htx₃, hcfg₃, hlocal₃, hack₃⟩ := frame_handshakeTimer e₂ now
      have harmed₃ : (e₂.handshakeTimer now).1.Armed :=
        hprobed.of_tx (hcfg₃.trans hcfg₂) (htx₃.trans htx₂)
      generalize e₂.handshakeTimer now = r at hs htx₃ hcfg₃ hlocal₃ hack₃ harmed₃
      rcases hs with ⟨hdead, hclosed⟩ | ⟨hdead, hs⟩
      · rw [if_pos hdead]
        exact ⟨harmed₃, .inl hclosed⟩
      · rw [if_neg (by rw [hdead]; exact Bool.false_ne_true)]
        obtain ⟨harmed, hrack⟩ := rackTimer_cases harmed₃ now
        obtain ⟨h₁, h₂, h₃, h₄, h₅⟩ := frame_rackTimer r.1 now
        refine dataTimers_cases harmed ⟨?_, ?_, ?_, hrack, ?_⟩ _ rfl
        · rwa [h₁]
        · rw [h₂, hlocal₃, hlocal₂]
          exact .of_not_due hlocal
        · rwa [h₃, hack₃]
        · rwa [h₄, h₅, htx₃, htx₂, hcfg₃, hcfg₂]

end StreamEngine

/-! ### Runs -/

namespace Trace

open StreamEngine

theorem armed_step {t : Trace} (h : t.engine.Armed) (op : Op) : (t.step op).engine.Armed := by
  cases op with
  | write data =>
    show (t.engine.write data).1.Armed
    rw [write]
    split
    · exact h
    · exact { h with }
  | finish | pollEvent | trackHandoffs => exact { h with }
  | reset reason =>
    show (t.engine.reset reason).Armed
    rw [reset]
    split
    · exact { h with }
    · exact h
  | read len =>
    show (t.engine.read len).1.Armed
    rw [StreamEngine.read]
    dsimp only
    split <;> exact { h with }
  | onCell => exact h.onCell ..
  | pollTransmit now => exact h.pollTransmitInner now true
  | pollRepairTransmit now => exact h.pollTransmitInner now false
  | onTimeout now => exact (h.onTimeout now).1
  | localHandoff => exact h.localHandoff ..
  | discardReceivedCell => exact h.discardReceivedCell ..

theorem armed_start (role : Role) (streamId : UInt32) {cfg : Config} (now : ℕ) (iss : UInt32)
    (hpos : cfg.Positive) (hinit : 0 < cfg.initRtoMs) :
    (Trace.start (role.engine streamId cfg now iss)).engine.Armed := by
  cases role <;> exact ⟨hpos, hinit, fun _ => rfl, nofun⟩

/-- **No timer spins**: along every run of an endpoint whose timeouts are positive, a call
of `on_timeout` closes the endpoint or leaves its next timeout in the future. -/
theorem next_timeout_in_future (role : Role) (streamId : UInt32) (cfg : Config) (start : ℕ)
    (iss : UInt32) (hpos : cfg.Positive) (hinit : 0 < cfg.initRtoMs) (ops : List Op) (now : ℕ)
    (e : StreamEngine)
    (he : e = ((Trace.start (role.engine streamId cfg start iss)).run ops).engine) :
    (e.onTimeout now).phase = .closed ∨
      ∀ d ∈ (e.onTimeout now).nextTimeoutWithPacing false, now < d := by
  have harmed : e.Armed := by
    rw [he]
    exact Run.invariant (P := fun t : Trace => t.engine.Armed) (fun _ op h => armed_step h op)
      (armed_start role streamId start iss hpos hinit) ops
  exact (harmed.onTimeout now).2

/-- A byte and a FIN on the network time out a second after they were sent. -/
theorem next_timeout_in_future_after_rto :
    let e := ((Trace.start (Role.responder.engine 3 Config.default 0 7)).run oneByteAndFin).engine
    (e.onTimeout 1002).nextTimeoutWithPacing false = some 3002 ∧
      ((e.onTimeout 1002).phase = .closed ∨
        ∀ d ∈ (e.onTimeout 1002).nextTimeoutWithPacing false, 1002 < d) :=
  ⟨by decide +kernel,
    next_timeout_in_future .responder 3 Config.default 0 7
      ⟨by decide, by decide, by decide⟩ (by decide) oneByteAndFin 1002 _ rfl⟩

/-- **An initial timeout of zero**: with positive handshake and minimum timeouts, but none
to start from, doubling never leaves zero and every timeout is due again at once. -/
theorem next_timeout_not_in_future :
    let cfg := { Config.default with initRtoMs := 0 }
    let e := ((Trace.start (Role.responder.engine 3 cfg 0 7)).run oneByteAndFin).engine
    0 < cfg.handshakeRtoMs ∧ 0 < cfg.minRtoMs ∧ cfg.minRtoMs ≤ cfg.maxRtoMs ∧
      e.phase = .established ∧ (e.onTimeout 5).phase = .established ∧
      (e.onTimeout 5).nextTimeoutWithPacing false = some 5 := by
  decide +kernel

end Trace

end VeilNetwork.OnionStream
