import VeilNetwork.OnionStream.Inbound

/-!
# What is sent

`poll_transmit` and everything it calls: the next cell of an endpoint, in the order
of priority of the source – a reset, the handshake, a repair, new data or the FIN,
an acknowledgement – and otherwise the persist timer of a closed window.
-/

namespace VeilNetwork.OnionStream

open Saturating Queue

namespace StreamEngine

/-! ### Acknowledgements -/

/-- The ranges of an acknowledgement: a duplicate report, the block that encloses it,
the most recent block, then the others from the oldest. -/
def ackRanges (blocks : List (UInt32 × UInt32)) (duplicate : Option SackRange)
    (enclosing recent : Option (UInt32 × UInt32)) : SackVec :=
  let push (v : SackVec) (b : UInt32 × UInt32) : SackVec := (v.push ⟨b.1, b.2⟩).1
  let sacks := duplicate.elim SackVec.new fun d => (SackVec.new.push d).1
  let sacks := enclosing.elim sacks (push sacks)
  let sacks := if recent = enclosing then sacks else recent.elim sacks (push sacks)
  (blocks.filter fun b => decide (some b ≠ enclosing) && decide (some b ≠ recent)).foldl push sacks

variable (e : StreamEngine)

/-- The block that contains the most recently buffered segment. -/
def recentBlock : Option (UInt32 × UInt32) :=
  e.recentSackSeq.bind fun seqNo =>
    e.rx.sackBlocks.find? fun b => Seq.geq seqNo b.1 && Seq.lt seqNo b.2

/-- The block that encloses a duplicate report above the cumulative point. -/
def enclosingBlock : Option (UInt32 × UInt32) :=
  (e.duplicateRange.filter fun d => Seq.geq d.start e.rx.rcvNxt).bind fun d =>
    e.rx.sackBlocks.find? fun b => Seq.leq b.1 d.start && Seq.geq b.2 d.stop

/-- Whether the recent block has to be moved in front to be reported at all. -/
def promotesRecent : Bool :=
  e.recentBlock.elim false fun b =>
    let used := (ackRanges [] e.duplicateRange e.enclosingBlock none).ranges.length
    decide (e.recentBlock ≠ e.enclosingBlock) &&
      !((e.rx.sackBlocks.filter fun c => decide (some c ≠ e.enclosingBlock)).take
        (maxSacks - used)).any fun c => decide (c = b)

/-- Build the acknowledgement. -/
def makeAck : StreamEngine × Frame :=
  let sacks := ackRanges e.rx.sackBlocks e.duplicateRange e.enclosingBlock e.recentBlock
  let win := e.rx.advertised
  ({ e with
      sackRecentPromotions :=
        if e.promotesRecent then add64 e.sackRecentPromotions 1 else e.sackRecentPromotions
      duplicateRange := none
      rx.lastAckWindow := win },
    .ack e.streamId e.rx.rcvNxt win sacks)

/-- A pending standalone acknowledgement. -/
def pollAck : Option (StreamEngine × List UInt8) :=
  if !e.ackPending ∨ e.phase = .closed then none
  else
    let (e, frame) :=
      makeAck { e with ackPending := false, ackEliciting := 0, ackDeadline := none }
    some (e, frame.encode)

/-! ### Pacing and windows -/

/-- Pacing interval and segments per tick. -/
def paceParams : ℕ × UInt32 :=
  if e.cfg.bbr && decide (0 < e.tx.bbr.btlBw) then
    bbrPacingParams e.cfg e.tx.bbr.btlBw e.tx.bbr.bbrStartup
  else
    match e.tx.rto.srtt with
    | none => (0, u32Max)
    | some srtt =>
      let win := (max (min e.tx.cong.cwnd e.tx.rwnd) e.cfg.mss32).toNat
      let gain := if e.tx.cong.cwnd < e.tx.cong.ssthresh then 2 else 1
      let num := mul64 win gain
      let den := mul64 (max srtt.toNat 1) e.cfg.mss
      if den ≤ num then
        (1, UInt32.ofNat (clamp64 (num / den) 1 (max e.cfg.maxPacingBatch 1).toNat))
      else (max (divCeil den num) 1, 1)

variable (now : ℕ)

/-- Refill the pacing budget of a due tick, scaled by how late the wake-up is. -/
def refillPace : StreamEngine :=
  if e.tx.cong.paceNextMs ≤ now then
    let (interval, batch) := e.paceParams
    let prevRefill := e.tx.cong.paceNextMs - interval
    let elapsed := max (now - prevRefill) interval
    let ticks := clamp64 (elapsed / max interval 1) 1 8
    { e with
      tx.cong.paceBudget :=
        UInt32.ofNat (min (mul64 batch.toNat ticks) (max e.cfg.maxPacingBatch 1).toNat)
      tx.cong.paceNextMs := now + interval }
  else e

/-- Take one segment out of the pacing budget. -/
def spendPace : StreamEngine :=
  { e with tx.cong.paceBudget := sub32 e.tx.cong.paceBudget 1 }

/-- The send window for new data. -/
def effectiveSendWindow : UInt32 :=
  let window := min (min e.tx.cong.cwnd e.tx.rwnd) maxInflightBytes
  match e.tx.bbr.bbrWindowCap e.cfg with
  | some cap => min window cap
  | none => window

/-! ### Segments -/

section

variable (s : Seg)

/-- The cell of a segment. -/
def encodeSeg : List UInt8 :=
  if s.isFin then (Frame.fin e.streamId s.seq).encode
  else (Frame.data e.streamId s.seq e.rx.advertised s.data).encode

/-- A new segment at `sndNxt`. Below the ceiling of a rewound flight it may already
have been on the network. -/
def newSeg (data : List UInt8) (isFin : Bool) (now : ℕ) : Seg :=
  let seqNo := e.tx.sndNxt
  let span : UInt32 := if isFin then 1 else UInt32.ofNat data.length
  { seq := seqNo
    data := data
    isFin := isFin
    sentMs := now
    retransmitted := e.trackLocalHandoffs &&
      e.tx.rewindHigh.elim false fun high => Seq.lt seqNo high
    sacked := false
    needsResend := false
    localPending := e.trackLocalHandoffs
    handedOff := !e.trackLocalHandoffs ||
      e.tx.rewindHigh.elim false fun high => Seq.leq (seqNo + span) high
    sackRepairDeadline := none
    sackFirstRttMs := none }

/-- Start the retransmission timer of a new flight. -/
def armRto : StreamEngine :=
  if !e.trackLocalHandoffs && e.tx.rto.rtoDeadline.isNone then
    { e with tx.rto.rtoDeadline := some (now + e.tx.rto.rtoMs) }
  else e

/-- Cut `n` bytes off the queue into a DATA segment. -/
def pushData (n : ℕ) (now : ℕ) : StreamEngine :=
  let data := e.tx.pending.take n
  let seqNo := e.tx.sndNxt
  let persistProbe :=
    if e.forceProbe && decide (e.tx.rwnd = 0) then some ⟨seqNo, false⟩
    else e.tx.persistProbe.filter fun p => decide (p.seq ≠ seqNo)
  armRto
    { e with
      forceProbe := false
      tx := { e.tx with
        pending := e.tx.pending.drop n
        persistProbe := persistProbe
        sndNxt := seqNo + UInt32.ofNat n
        segs := e.tx.segs ++ [e.newSeg data false now] } }
    now

/-- Append the FIN segment. -/
def pushFin : StreamEngine :=
  armRto
    { e with
      forceProbe := false
      tx := { e.tx with
        sndNxt := e.tx.sndNxt + 1
        finSent := true
        segs := e.tx.segs ++ [e.newSeg [] true now] } }
    now

/-- How much the window lets through; a persist probe gets one byte past it. -/
def sendRoom : UInt32 :=
  let room := e.effectiveSendWindow - e.tx.flight
  if e.forceProbe then max room 1 else room

/-- Create the next DATA or FIN segment if the window allows. -/
def createNextSegment : Option StreamEngine :=
  if !e.forceProbe ∧ e.effectiveSendWindow ≤ e.tx.flight then none
  else if e.tx.pending ≠ [] then
    let n := (min (min e.cfg.mss32 e.sendRoom) (UInt32.ofNat e.tx.pending.length)).toNat
    if n = 0 then none else some (e.pushData n now)
  else if e.tx.finRequested ∧ !e.tx.finSent ∧ 1 ≤ e.sendRoom then some (e.pushFin now)
  else none

/-- A segment the scanner marked and that is not waiting locally. -/
def wantsResend : Bool := s.needsResend && !s.localPending

/-- A segment as it goes out again. -/
def resent : Seg :=
  { s with
    needsResend := false
    sackRepairDeadline := none
    retransmitted := true
    sentMs := now
    localPending := e.trackLocalHandoffs }

/-- The first marked segment goes out again. -/
def markResent : StreamEngine :=
  { e with
    tx := { e.tx with
      segs := updateFirst wantsResend (e.resent now) e.tx.segs }.refreshArmedRepairs }

/-- The loss detector remembers a repair. -/
def recordResend (now : ℕ) : StreamEngine :=
  if e.cfg.rack then
    { e with
      tx.rack := e.tx.rack.recordRackRepair s.seq s.stop s.sentMs
        (if e.trackLocalHandoffs then none else some now) now }
  else e

/-- A repeated window probe is unanswered again. -/
def resendProbe (now : ℕ) : StreamEngine :=
  match e.tx.persistProbe with
  | some probe =>
    if probe.seq = s.seq then
      { e with
        tx := { e.tx with
          persistProbe := some { probe with replied := false }
          rto := if e.trackLocalHandoffs then e.tx.rto
            else { e.tx.rto with rtoDeadline := some (add64 now e.tx.rto.rtoMs) } } }
    else e
  | none => e

/-- Send a marked segment again. -/
def resend (now : ℕ) : StreamEngine :=
  (((e.markResent now).recordResend s now).resendProbe s now).syncLocalRto now

end

variable (allowNew : Bool)

/-- The next repair or new segment of an established stream. -/
def pollSegment : StreamEngine × Option (List UInt8) :=
  if e.phase ≠ .established then (e, none)
  else
    let e := e.refillPace now
    match if 0 < e.tx.cong.paceBudget then e.tx.segs.find? wantsResend else none with
    | some s =>
      let e := (e.resend s now).spendPace
      (e, some (e.encodeSeg s))
    | none =>
      match if allowNew ∧ (e.forceProbe ∨ 0 < e.tx.cong.paceBudget) then e.createNextSegment now
        else none with
      | some e =>
        let e := e.spendPace
        (e, e.tx.segs.getLast?.map e.encodeSeg)
      | none => (e, none)

/-! ### The next cell -/

/-- Our part of the handshake is not yet confirmed. -/
def handshakeUnconfirmed : Bool :=
  !e.synAcked && (decide (e.phase = .synSent) || decide (e.phase = .established))

/-- Bound a handshake that the local carrier keeps refusing. -/
def armLocalHandshakeLimit : StreamEngine :=
  { e with
    hsLocalDeadline :=
      some (add64 now (mul64 e.cfg.handshakeRtoMs (e.cfg.maxRetransmits.toNat + 1))) }

/-- A handshake cell enters the local queue. -/
def queueHandshake : StreamEngine :=
  if e.trackLocalHandoffs && e.handshakeUnconfirmed then
    armLocalHandshakeLimit { e with hsLocalPending := true, hsDeadline := none } now
  else e

/-- Arm or clear the persist timer of a closed window. -/
def armPersist : StreamEngine :=
  { e with
    persistDeadline :=
      if e.zeroWindowBlocked then
        some (e.persistDeadline.getD (now + max e.tx.rto.rtoMs e.cfg.minRtoMs))
      else none }

/-- The segments and acknowledgements of `poll_transmit`. -/
def pollStream : StreamEngine × Option (List UInt8) :=
  match if allowNew then none else e.pollAck with
  | some (e, cell) => (e, some cell)
  | none =>
    match e.pollSegment now allowNew with
    | (e, some cell) => (e, some cell)
    | (e, none) =>
      match e.pollAck with
      | some (e, cell) => (e, some cell)
      | none => (e.armPersist now, none)

/-- The next frame to send. -/
def pollTransmitInner : StreamEngine × Option (List UInt8) :=
  let e : StreamEngine := { e with tx.bbr := e.tx.bbr.advanceBbrProbe now e.cfg }
  match e.rstToSend with
  | some reason => ({ e with rstToSend := none }, some (Frame.rst e.streamId reason).encode)
  | none =>
    if e.sendSyn then
      let e := queueHandshake { e with sendSyn := false } now
      (e, some (Frame.syn e.streamId e.tx.iss e.rx.advertised).encode)
    else if e.sendSynack then
      let e := queueHandshake { e with sendSynack := false } now
      (e, some (Frame.synAck e.streamId e.tx.iss e.rx.advertised e.rx.rcvNxt).encode)
    else e.pollStream now allowNew

/-- The next cell to send, if any. -/
def pollTransmit : StreamEngine × Option (List UInt8) :=
  e.pollTransmitInner now true

/-- The next cell that reserves no new data. -/
def pollRepairTransmit : StreamEngine × Option (List UInt8) :=
  e.pollTransmitInner now false

end StreamEngine

end VeilNetwork.OnionStream
