import VeilNetwork.OnionStream.Estimators
import VeilNetwork.OnionStream.Receive

/-!
# What arrives

The handlers of `engine.rs` for every kind of frame. The acknowledgement handler is
cut into the stages its source runs through in order – the window, the selective
ranges, a refused window probe, cumulative progress or a duplicate, the estimators –
with what one stage learns for a later one in the record `AckEvidence`.
-/

namespace VeilNetwork.OnionStream

open Saturating Queue

namespace TxState

variable (tx : TxState)

/-- The outstanding sequence space. -/
def flight : UInt32 := tx.sndNxt - tx.sndUna

/-- Whether the only segment in flight is a window probe that left and is unanswered. -/
def windowProbeHandedOff : Bool :=
  match tx.persistProbe, tx.segs with
  | some probe, [s] =>
    decide (probe.seq = tx.sndUna) && decide (s.seq = probe.seq) && !s.isFin &&
      decide (s.data.length = 1) && s.handedOff && !s.localPending && !s.sacked
  | _, _ => false

/-- The highest acknowledgement the sending half can have earned. -/
def ackLimit : UInt32 :=
  let limit := tx.rewindHigh.elim tx.sndNxt fun high => Seq.max tx.sndNxt high
  match tx.segs.find? fun s => !s.handedOff with
  | none => limit
  | some s =>
    let known := Seq.max s.seq tx.sndUna
    let known := tx.rewindHigh.elim known fun high => Seq.max known (Seq.min high s.stop)
    Seq.min limit known

/-- A late acknowledgement of a rewound flight: its bytes wait in `pending` and have
to go. A FIN of that flight consumed a sequence number but no byte. -/
def trimRewoundPendingAfterAck (ack : UInt32) : TxState :=
  match tx.rewindHigh with
  | none => tx
  | some high =>
    let tx :=
      if Seq.gt ack tx.sndNxt then
        let dropBytes := (ack - tx.sndNxt).toNat
        let dropBytes := if tx.rewindFin && Seq.geq ack high then dropBytes - 1 else dropBytes
        { tx with
          pending := tx.pending.drop (min dropBytes tx.pending.length)
          sndNxt := ack }
      else tx
    if Seq.geq ack high then
      { tx with
        finAcked := tx.finAcked || tx.rewindFin
        rewindHigh := none
        rewindFin := false }
    else tx

/-- Recompute the earliest repair deadline, if one is armed. -/
def refreshArmedRepairs : TxState :=
  if tx.rto.nextSackRepairMs.isSome then
    { tx with rto := tx.rto.refreshSackRepairDeadline tx.segs }
  else tx

/-- Recompute the timer of the oldest segment on the network. -/
def refreshLocalRto (tx : TxState) (now : ℕ) : TxState :=
  { tx with rto := tx.rto.refreshLocalRto tx.segs now }

/-- Mark for repair the segments with enough selective receipts above them; the
count runs from the back. -/
def markHolesFrom : List Seg → List Seg × ℕ × Bool
  | [] => ([], 0, false)
  | s :: l =>
    let (l, sackedAbove, any) := markHolesFrom l
    if s.sacked then (s :: l, sackedAbove + 1, any)
    else if sackLossThreshold ≤ sackedAbove ∧ !s.localPending ∧ !s.retransmitted ∧
        !s.needsResend then
      ({ s with needsResend := true } :: l, sackedAbove, true)
    else (s :: l, sackedAbove, any)

/-- Selective-acknowledgement loss detection, falling back on the oldest segment. -/
def markHoles (fallbackOldest : Bool) : TxState :=
  let (segs, _, any) := markHolesFrom tx.segs
  let segs :=
    if !any && fallbackOldest then
      updateFirst (fun s => !s.sacked && !s.localPending && !s.retransmitted && !s.needsResend)
        (fun s => { s with needsResend := true }) segs
    else segs
  { tx with segs := segs }

end TxState

namespace StreamEngine

/-! ### Small helpers -/

variable (e : StreamEngine)

/-- Queue an immediate cumulative acknowledgement. -/
def ackNow : StreamEngine :=
  { e with ackPending := true, ackEliciting := 0, ackDeadline := none }

/-- Acknowledge a DATA segment: at once unless it advanced, else delayed. -/
def ackData (advanced : Bool) (now : ℕ) : StreamEngine :=
  if !advanced then e.ackNow
  else
    let e := { e with ackEliciting := min (e.ackEliciting + 1) 255 }
    if max e.cfg.ackEvery 1 ≤ e.ackEliciting then e.ackNow
    else
      { e with
        ackDeadline := some (e.ackDeadline.getD (now + max e.cfg.ackDelayMs 1)) }

/-- Any later frame of the peer confirms our part of the handshake. -/
def notePeerProgress : StreamEngine :=
  if e.phase = .established ∧ e.synAcked = false then
    { e with
      synAcked := true
      hsDeadline := none
      hsRetries := 0
      hsLocalPending := false
      hsLocalDeadline := none }
  else e

/-- With handoff reports, the timer follows the segments on the network. -/
def syncLocalRto (now : ℕ) : StreamEngine :=
  if e.trackLocalHandoffs then { e with tx := e.tx.refreshLocalRto now } else e

/-- Data or a FIN waits, nothing is in flight and the peer's window is closed. -/
def zeroWindowBlocked : Bool :=
  decide (e.phase = .established) && e.tx.segs.isEmpty && decide (e.tx.rwnd = 0) &&
    (!e.tx.pending.isEmpty || (e.tx.finRequested && !e.tx.finSent))

/-- The window after a loss. -/
def lossDecreaseWindow (basis mss : UInt32) : UInt32 :=
  let beta := clamp64 e.cfg.lossDecreasePerMille 1 1000
  cut32 (max (basis.toNat * beta / 1000) (2 * mss).toNat)

/-- Cut the window and enter recovery. -/
def enterFastRecovery : StreamEngine :=
  let mss := e.cfg.mss32
  let basis :=
    if e.cfg.rtoRewindNoSack then
      let effectiveCwnd := max (min e.tx.cong.cwnd e.tx.rwnd) mss
      let rewindFloor := if e.tx.rewindHigh.isSome then mul32 e.tx.cong.ssthresh 2 else 0
      max (max e.tx.flight effectiveCwnd) rewindFloor
    else e.tx.flight
  let ssthresh := e.lossDecreaseWindow basis mss
  { e with
    tx.cong.ssthresh := ssthresh
    tx.cong.cwnd := add32 ssthresh (3 * mss)
    tx.cong.inRecovery := true
    tx.cong.recover := e.tx.sndNxt }

/-- The detector's verdict on one segment: lost, or lost at a later deadline. -/
def rackVerdict (rackXmit : ℕ) (rackEnd : UInt32) (timeout now : ℕ) (s : Seg) :
    Seg × Bool × Option ℕ :=
  let sentNoLater := decide (s.sentMs < rackXmit) ||
    (decide (s.sentMs = rackXmit) && Seq.leq s.stop rackEnd)
  if s.sacked || s.localPending || s.needsResend || !sentNoLater then (s, false, none)
  else if s.sentMs + timeout ≤ now then ({ s with needsResend := true }, true, none)
  else (s, false, some (s.sentMs + timeout))

/-- Time-threshold loss detection; whether anything was marked. -/
def rackDetectLoss (now : ℕ) : StreamEngine × Bool :=
  let rack := e.tx.rack.expireRackReordering now
  if rack.rackXmitMs = 0 ∨ e.phase ≠ .established then
    ({ e with tx.rack := { rack with rackDeadline := none } }, false)
  else
    let timeout := rack.rackRttMs.toNat +
      (rack.rackReoWnd e.tx.bbr.rttMin e.tx.rto.srtt e.cfg).toNat
    let verdicts := e.tx.segs.map (rackVerdict rack.rackXmitMs rack.rackEndSeq timeout now)
    ({ e with
        tx.segs := verdicts.map Prod.fst
        tx.rack := { rack with rackDeadline := (verdicts.filterMap fun v => v.2.2).min? } },
      verdicts.any fun v => v.2.1)

/-- Detect losses, and enter recovery on the first of them. -/
def rackRecover (now : ℕ) : StreamEngine :=
  let (e, lost) := e.rackDetectLoss now
  if lost && !e.tx.cong.inRecovery then e.enterFastRecovery else e

/-! ### Handshake, data, end of stream and reset -/

/-- The peer opens a stream. -/
def onSyn (isn win : UInt32) (now : ℕ) : StreamEngine :=
  match e.phase with
  | .listen =>
    { e with
      rx.rcvNxt := isn + 1
      tx.rwnd := win
      phase := .established
      sendSynack := true
      hsDeadline := if e.trackLocalHandoffs then none else some (now + e.cfg.handshakeRtoMs)
      hsRetries := 0
      events := e.events ++ [.connected] }
  | .established => { e with sendSynack := true }
  | _ => e

/-- The peer has accepted the stream. -/
def onSynack (isn win ack : UInt32) : StreamEngine :=
  if e.phase = .synSent then
    if ack ≠ e.tx.iss + 1 then e
    else
      let sndUna := e.tx.iss + 1
      ackNow
        { e with
          tx.sndUna := sndUna
          tx.sndNxt := Seq.max e.tx.sndNxt sndUna
          rx.rcvNxt := isn
          tx.rwnd := win
          synAcked := true
          hsDeadline := none
          hsRetries := 0
          hsLocalPending := false
          hsLocalDeadline := none
          phase := .established
          events := e.events ++ [.connected] }
  else if e.phase = .established then e.ackNow
  else e

/-- The part of a DATA segment that was received before. -/
def duplicateOf (rx : RxState) (segSeq : UInt32) (payload : List UInt8) : Option SackRange :=
  let stop := segSeq + UInt32.ofNat payload.length
  if Seq.lt segSeq rx.rcvNxt then some ⟨segSeq, Seq.min stop rx.rcvNxt⟩
  else (rx.storedEnd segSeq).map fun storedEnd => ⟨segSeq, Seq.min stop storedEnd⟩

/-- A segment. -/
def onData (segSeq win : UInt32) (payload : List UInt8) (now : ℕ) : StreamEngine :=
  if e.phase = .closed then e
  else
    let e := e.notePeerProgress
    if payload.isEmpty then e
    else
      let e := { e with duplicateRange := (duplicateOf e.rx segSeq payload).or e.duplicateRange }
      let (rx, advanced) := e.rx.accept segSeq payload
      let e := { e with rx := rx }
      let e := if (e.rx.storedEnd segSeq).isSome then { e with recentSackSeq := some segSeq } else e
      let e := e.ackData advanced now
      -- the piggybacked window is a hint: it may only solicit one probe
      if 0 < win ∧ e.zeroWindowBlocked ∧ !e.tx.windowHintProbeUsed then
        { e with tx.windowHintProbeUsed := true, forceProbe := true }
      else e

/-- The peer has no more to send. -/
def onPeerFin (finSeq : UInt32) : StreamEngine :=
  if e.phase = .closed then e
  else
    let e := e.notePeerProgress
    let rx := { e.rx with peerFinSeq := some finSeq }.tryConsumeFin
    let e := { e with rx := rx }
    let e :=
      if e.rx.eof ∧ Event.peerFinished ∉ e.events then
        { e with events := e.events ++ [.peerFinished] }
      else e
    e.ackNow

/-- The peer gave up. -/
def onRst (reason : UInt8) : StreamEngine :=
  if e.phase ≠ .closed then { e with phase := .closed, events := e.events ++ [.reset reason] }
  else e

/-! ### Acknowledgements -/

/-- What one acknowledgement teaches the estimators, gathered stage by stage. -/
structure AckEvidence where
  newlyDelivered : UInt32
  sackedOverlap : UInt32
  rttSample : Option UInt32
  deferredSackRtt : Option UInt32
  freshSackRtt : Option UInt32
  rttSentMs : Option ℕ
  rackRttSample : Option UInt32
  skipped : ℕ
  rack : Rack
  finAcked : Bool

/-- The fixed context of one acknowledgement. -/
structure AckContext where
  cfg : Config
  ack : UInt32
  now : ℕ
  oldUna : UInt32
  priorRackFrontier : ℕ
  rtoBackoff : Option RtoBackoff

namespace AckContext

variable (c : AckContext)

/-- Feed a first receipt to the loss detector. -/
def rackDelivery (s : Seg) (acc : AckEvidence) : AckEvidence :=
  let (rack, rtt) := acc.rack.rackOnDelivery s.sentMs s.stop c.now c.priorRackFrontier
    s.retransmitted
  { acc with
    rack := rack
    rackRttSample := rtt.elim acc.rackRttSample (minOpt acc.rackRttSample) }

/-- One segment against one selective range. -/
def sackSeg (r : SackRange) (s : Seg) (acc : AckEvidence) : Seg × AckEvidence :=
  if s.handedOff && !s.sacked && Seq.geq s.seq r.start && Seq.leq s.stop r.stop then
    let acc :=
      if !s.isFin && Seq.gt s.stop c.oldUna then
        { acc with newlyDelivered := acc.newlyDelivered + (s.stop - Seq.max s.seq c.oldUna) }
      else acc
    let s' : Seg :=
      { s with
        sacked := true
        needsResend := false
        sackRepairDeadline := none
        sackFirstRttMs :=
          if s.retransmitted then s.sackFirstRttMs else some (cut32 (c.now - s.sentMs)) }
    let acc :=
      if s.retransmitted then acc else { acc with rttSentMs := maxOpt acc.rttSentMs s.sentMs }
    (s', if c.cfg.rack && !s.localPending then c.rackDelivery s acc else acc)
  else (s, acc)

/-- The whole flight against one selective range. -/
def sackRange (c : AckContext) (r : SackRange) : List Seg → AckEvidence → List Seg × AckEvidence
  | [], acc => ([], acc)
  | s :: l, acc =>
    let (s, acc) := c.sackSeg r s acc
    let (l, acc) := c.sackRange r l acc
    (s :: l, acc)

/-- The whole flight against every selective range, in order. -/
def sackRanges (c : AckContext) : List SackRange → List Seg → AckEvidence → List Seg × AckEvidence
  | [], segs, acc => (segs, acc)
  | r :: l, segs, acc =>
    let (segs, acc) := c.sackRange r segs acc
    c.sackRanges l segs acc

/-- Whether a receipt is recent enough to release the timer's backoff. -/
def releasesBackoff (s : Seg) (rtt : UInt32) : Bool :=
  c.rtoBackoff.elim false fun backoff =>
    decide (backoff.startedMs < s.sentMs) && Seq.geq c.ack backoff.flightEnd &&
      decide (c.now - add64 s.sentMs rtt.toNat < c.cfg.maxRtoMs)

/-- What a retired original says about the round trip. -/
def retireTiming (s : Seg) (acc : AckEvidence) : AckEvidence :=
  if s.retransmitted then acc
  else
    let acc :=
      if !s.sacked then { acc with rttSample := some (UInt32.ofNat (c.now - s.sentMs)) }
      else
        let acc := { acc with skipped := add64 acc.skipped 1 }
        match s.sackFirstRttMs with
        | none => acc
        | some rtt =>
          { acc with
            deferredSackRtt := maxOpt acc.deferredSackRtt rtt
            freshSackRtt :=
              if c.releasesBackoff s rtt then maxOpt acc.freshSackRtt rtt else acc.freshSackRtt }
    if s.handedOff && !s.sacked then { acc with rttSentMs := maxOpt acc.rttSentMs s.sentMs }
    else acc

/-- Retire one segment. -/
def retireSeg (s : Seg) (acc : AckEvidence) : AckEvidence :=
  let acc :=
    if s.sacked && !s.isFin && Seq.gt s.stop c.oldUna then
      { acc with sackedOverlap := acc.sackedOverlap + (s.stop - Seq.max s.seq c.oldUna) }
    else acc
  let acc := c.retireTiming s acc
  let acc :=
    if c.cfg.rack && s.handedOff && !s.localPending && !s.sacked then c.rackDelivery s acc else acc
  { acc with finAcked := acc.finAcked || s.isFin }

/-- Retire the segments the acknowledgement covers, from the front. -/
def retireLoop (c : AckContext) : List Seg → AckEvidence → List Seg × AckEvidence
  | [], acc => ([], acc)
  | s :: l, acc =>
    if Seq.leq s.stop c.ack then c.retireLoop l (c.retireSeg s acc) else (s :: l, acc)

/-- The part of a partly covered front segment that was received selectively. -/
def partialOverlap (segs : List Seg) (acc : AckEvidence) : AckEvidence :=
  match segs.head? with
  | some s =>
    let start := Seq.max s.seq c.oldUna
    if s.sacked && !s.isFin && Seq.gt c.ack start then
      { acc with sackedOverlap := acc.sackedOverlap + (c.ack - start) }
    else acc
  | none => acc

end AckContext

variable (e : StreamEngine)

/-- The peer's window, unless the acknowledgement is older than one already seen. -/
def ackWindow (ack win : UInt32) (now : ℕ) : StreamEngine :=
  if Seq.geq ack e.tx.sndUna then
    let e :=
      if e.cfg.bbr && (decide (win = 0) || decide (e.tx.rwnd = 0)) then
        { e with tx.bbr.rateSamples := [], tx.bbr.bbrLastAppLimitedMs := some now }
      else e
    let e := { e with tx.rwnd := win }
    if 0 < win then { e with tx.windowHintProbeUsed := false, forceProbe := false } else e
  else e

section

variable (ack : UInt32)

/-- A live peer refused the probe byte, or reopened its window after refusing it. -/
def ackProbe (windowReopened probeRefused : Bool) (now : ℕ) : StreamEngine :=
  if probeRefused then
    { e with
      tx.persistProbe := e.tx.persistProbe.map fun p => { p with replied := true }
      tx.rto.consecRto := 0 }
  else if windowReopened && decide (ack = e.tx.sndUna) && e.tx.windowProbeHandedOff &&
      e.tx.persistProbe.elim false PersistProbe.replied then
    { e with
      tx.segs := updateFirst (fun _ => true) (fun s => { s with needsResend := true }) e.tx.segs
      tx.rto.rtoDeadline := some (add64 now e.tx.rto.rtoMs) }
  else e

/-- Congestion control on cumulative progress. -/
def ackGrowth (ack acked : UInt32) : StreamEngine :=
  let mss := e.cfg.mss32
  let cong := e.tx.cong
  if cong.inRecovery then
    if Seq.geq ack cong.recover then
      { e with tx.cong := { cong with inRecovery := false, cwnd := max cong.ssthresh mss } }
    else
      let cwnd := add32 (max (sub32 cong.cwnd acked) mss) mss
      { e with
        tx := { if e.cfg.rack then e.tx else e.tx.markHoles true with
          cong := { cong with cwnd := cwnd } } }
  else if cong.cwnd < cong.ssthresh then
    { e with tx.cong := { cong with cwnd := add32 cong.cwnd acked } }
  else
    let inc := UInt32.ofNat (max (mss.toNat * acked.toNat / (max cong.cwnd 1).toNat) 1)
    { e with tx.cong := { cong with cwnd := add32 cong.cwnd inc } }

/-- The retransmission timer on cumulative progress. -/
def ackTiming (acc : AckEvidence) (now : ℕ) : StreamEngine :=
  let rto := e.tx.rto
  let rto :=
    match acc.rttSample.or acc.freshSackRtt with
    | none => rto
    | some r =>
      let rto :=
        if acc.rttSample.isNone then
          { rto with rtoFreshSackUpdates := add64 rto.rtoFreshSackUpdates 1 }
        else rto
      { rto.updateRto r e.cfg with rtoBackoff := none }
  let rto := acc.deferredSackRtt.elim rto fun r => rto.raiseRtoFromDeferredSample r e.cfg
  let rto := rto.armOrClearRto e.tx.segs now
  syncLocalRto { e with tx.rto := rto } now

/-- The cumulative point of the sending half moves to `ack`: the covered segments
retire, and a rewound flight gives up what the acknowledgement covers. -/
def ackAdvance (c : AckContext) (acc : AckEvidence) : StreamEngine × AckEvidence :=
  let (segs, acc) := c.retireLoop e.tx.segs { acc with finAcked := e.tx.finAcked }
  let acc := c.partialOverlap segs acc
  let persistProbe := e.tx.persistProbe.filter fun p => !Seq.gt c.ack p.seq
  let tx :=
    { e.tx with
      segs := segs
      finAcked := acc.finAcked
      rack := acc.rack
      rto := { e.tx.rto with rtoSackedSegmentsSkipped := acc.skipped }
      sndUna := c.ack
      persistProbe := persistProbe }
  ({ e with tx := tx.trimRewoundPendingAfterAck c.ack }, acc)

/-- New data acknowledged. -/
def ackCumulative (c : AckContext) (acc : AckEvidence) : StreamEngine × AckEvidence :=
  let finWasAcked := e.tx.finAcked
  let acked := c.ack - e.tx.sndUna
  let (e, acc) := e.ackAdvance c acc
  let finDelivered : UInt32 := if !finWasAcked && e.tx.finAcked then 1 else 0
  let acc :=
    { acc with
      newlyDelivered :=
        acc.newlyDelivered + sub32 (sub32 acked acc.sackedOverlap) finDelivered }
  let recoveryExited := decide (0 < e.tx.rto.consecRto) ||
    (e.tx.cong.inRecovery && Seq.geq c.ack e.tx.cong.recover)
  let e := { e with tx.cong.dupAcks := 0, tx.rto.consecRto := 0 }
  let e := e.ackGrowth c.ack acked
  let e := if recoveryExited then { e with tx.rack := e.tx.rack.completeRackRecovery } else e
  (e.ackTiming acc c.now, acc)

/-- A duplicate acknowledgement. -/
def ackDuplicate : StreamEngine :=
  let e := { e with tx.cong.dupAcks := e.tx.cong.dupAcks + 1 }
  if e.tx.cong.dupAcks = 3 ∧ !e.tx.cong.inRecovery ∧ !e.cfg.rack then
    let e := e.enterFastRecovery
    { e with tx := e.tx.markHoles true }
  else if e.tx.cong.inRecovery then
    let e := { e with tx.cong.cwnd := add32 e.tx.cong.cwnd e.cfg.mss32 }
    if e.cfg.rack then e else { e with tx := e.tx.markHoles false }
  else e

/-- Whether the acknowledgement counts as a duplicate. -/
def isDuplicateAck (probeRefused windowChanged : Bool) (newlyDelivered : UInt32) : Bool :=
  decide (ack = e.tx.sndUna) && !probeRefused &&
    (!windowChanged || decide (0 < newlyDelivered)) && !e.tx.segs.isEmpty &&
    (!e.trackLocalHandoffs ||
      e.tx.segs.any fun s => s.handedOff && !s.sacked && !s.localPending)

/-- The delivery-rate model's share of an acknowledgement. -/
def ackRates (acc : AckEvidence) (now : ℕ) : StreamEngine :=
  if e.cfg.bbr then
    let bbr := acc.rttSentMs.elim e.tx.bbr fun sentMs =>
      e.tx.bbr.bbrOnRtt (cut32 (now - sentMs)) sentMs now e.tx.flight e.cfg
    let bbr :=
      if 0 < acc.newlyDelivered then
        bbr.bbrOnDelivered acc.newlyDelivered now (!e.tx.pending.isEmpty) e.cfg.mss32 e.tx.rto.srtt
      else bbr
    { e with tx.bbr := bbr }
  else e

/-- The loss detector's share of an acknowledgement. -/
def ackRack (sacks : SackVec) (acc : AckEvidence) (now : ℕ) : StreamEngine :=
  let e := acc.rackRttSample.elim e fun rtt => { e with tx.rack.rackRttMs := rtt }
  if e.cfg.rack then
    rackRecover
      { e with
        tx.rack := e.tx.rack.noteDsack ack sacks now e.tx.ackLimit e.tx.sndUna e.tx.sndNxt
          e.tx.rto.rtoMs }
      now
  else e

/-- The timers after an acknowledgement. -/
def ackTimers (now : ℕ) : StreamEngine :=
  let e := e.syncLocalRto now
  { e with tx := e.tx.refreshArmedRepairs }

/-- What follows an acknowledgement's own effect: rates, losses, timers. -/
def ackFinish (sacks : SackVec) (acc : AckEvidence) (now : ℕ) : StreamEngine :=
  ((e.ackRates acc now).ackRack ack sacks acc now).ackTimers now

end

/-- The stages of an acknowledgement that passed the ceiling. -/
def ackAccepted (ack win : UInt32) (sacks : SackVec) (now : ℕ) : StreamEngine :=
  let current := Seq.geq ack e.tx.sndUna
  let windowChanged := current && decide (e.tx.rwnd ≠ win)
  let windowReopened := current && decide (e.tx.rwnd = 0) && decide (0 < win)
  let e := e.ackWindow ack win now
  let c : AckContext :=
    { cfg := e.cfg, ack := ack, now := now, oldUna := e.tx.sndUna,
      priorRackFrontier := e.tx.rack.rackXmitMs, rtoBackoff := e.tx.rto.rtoBackoff }
  let acc : AckEvidence :=
    { newlyDelivered := 0, sackedOverlap := 0, rttSample := none, deferredSackRtt := none,
      freshSackRtt := none, rttSentMs := none, rackRttSample := none,
      skipped := e.tx.rto.rtoSackedSegmentsSkipped, rack := e.tx.rack, finAcked := e.tx.finAcked }
  let (segs, acc) := c.sackRanges sacks.ranges e.tx.segs acc
  let e : StreamEngine := { e with tx := { e.tx with segs := segs, rack := acc.rack } }
  let probeRefused := decide (ack = e.tx.sndUna) && decide (e.tx.rwnd = 0) &&
    e.tx.windowProbeHandedOff
  let e := e.ackProbe ack windowReopened probeRefused now
  let (e, acc) :=
    if Seq.gt ack e.tx.sndUna then e.ackCumulative c acc
    else if e.isDuplicateAck ack probeRefused windowChanged acc.newlyDelivered then
      (e.ackDuplicate, acc)
    else (e, acc)
  e.ackFinish ack sacks acc now

/-- An acknowledgement. -/
def onAck (ack win : UInt32) (sacks : SackVec) (now : ℕ) : StreamEngine :=
  let e := e.notePeerProgress
  if e.phase = .synSent ∨ e.phase = .closed then e
  else if Seq.gt ack e.tx.ackLimit then e
  else e.ackAccepted ack win sacks now

/-! ### One cell -/

/-- Feed one received cell. -/
def onCell (cell : List UInt8) (now : ℕ) : StreamEngine :=
  match Frame.decode cell with
  | none => e
  | some frame =>
    if frame.streamId ≠ e.streamId then e
    else
      match frame with
      | .syn _ isn win => e.onSyn isn win now
      | .synAck _ isn win ack => e.onSynack isn win ack
      | .data _ seq win payload => e.onData seq win payload now
      | .ack _ ack win sacks => e.onAck ack win sacks now
      | .fin _ seq => e.onPeerFin seq
      | .rst _ reason => e.onRst reason

end StreamEngine

end VeilNetwork.OnionStream
