import VeilNetwork.Lib.Run
import VeilNetwork.OnionStream.Outbound

/-!
# The endpoint as a state machine

The timers, the application's calls and the driver's handoff reports of
`engine.rs`, and with them the whole endpoint as a machine: `Op` lists every call
that can change an endpoint, `StreamEngine.step` runs one, and `Trace` carries an
endpoint along a run together with what the outside has seen of it – the bytes its
`write` accepted, the bytes its `read` returned, the cells it emitted.
-/

namespace VeilNetwork.OnionStream

open Saturating Queue

namespace TxState

/-- Repair proven holes whose own last repair has expired; others keep their own
deadline. The count of selective receipts runs from the back. -/
def expireRepairsFrom (now expiredRtoMs : ℕ) : List Seg → List Seg × ℕ
  | [] => ([], 0)
  | s :: l =>
    let (l, sackedAbove) := expireRepairsFrom now expiredRtoMs l
    if s.sacked then (s :: l, sackedAbove + 1)
    else if sackLossThreshold ≤ sackedAbove ∧ s.retransmitted ∧ s.handedOff ∧ !s.localPending ∧
        !s.needsResend then
      let deadline := add64 s.sentMs expiredRtoMs
      if deadline ≤ now then
        ({ s with needsResend := true, sackRepairDeadline := none } :: l, sackedAbove)
      else ({ s with sackRepairDeadline := minOpt s.sackRepairDeadline deadline } :: l, sackedAbove)
    else (s :: l, sackedAbove)

variable (tx : TxState)

def markExpiredSackRepairs (now expiredRtoMs : ℕ) : TxState :=
  let segs := (expireRepairsFrom now expiredRtoMs tx.segs).1
  { tx with segs := segs, rto := tx.rto.refreshSackRepairDeadline segs }

/-- A repair deadline that has passed. -/
def dueRepair (now : ℕ) (s : Seg) : Seg :=
  if s.sackRepairDeadline.elim false fun deadline => decide (deadline ≤ now) then
    { s with
      sackRepairDeadline := none
      needsResend := s.needsResend ||
        (!s.sacked && s.retransmitted && s.handedOff && !s.localPending) }
  else s

def markDueSackRepairs (now : ℕ) : TxState :=
  if tx.rto.nextSackRepairMs.elim true fun deadline => decide (now < deadline) then tx
  else
    let segs := tx.segs.map (dueRepair now)
    { tx with segs := segs, rto := tx.rto.refreshSackRepairDeadline segs }

/-- Mark the oldest segment on the network that no range has reported. -/
def markOldestUnsackedForRto : TxState :=
  { tx with
    segs := updateFirst (fun s => !s.sacked && !s.localPending)
      (fun s => { s with needsResend := true }) tx.segs }

/-- The bytes of a flight above `una`, FIN segments left out. -/
def requeued (una : UInt32) (segs : List Seg) : List UInt8 :=
  segs.flatMap fun s =>
    if s.isFin then []
    else s.data.drop (if Seq.lt s.seq una then (una - s.seq).toNat else 0)

/-- Move every outstanding byte back in front of the queue and restart at `sndUna`. -/
def requeueUnsackedFlightForRto : TxState :=
  let rewindHigh := tx.rewindHigh.elim tx.sndNxt fun high => Seq.max high tx.sndNxt
  let rewoundFin := tx.segs.any Seg.isFin
  { tx with
    segs := []
    rto := { tx.rto with nextSackRepairMs := none }
    pending := requeued tx.sndUna tx.segs ++ tx.pending
    sndNxt := tx.sndUna
    rewindHigh := some rewindHigh
    rewindFin := tx.rewindFin || rewoundFin
    finSent := tx.finSent && !rewoundFin }

end TxState

namespace StreamEngine

/-! ### Timers -/

variable (e : StreamEngine)

/-- The path is dead. -/
def declareDead : StreamEngine :=
  { e with
    phase := .closed
    rstToSend := some ResetReason.timedOut
    events := e.events ++ [.reset ResetReason.timedOut] }

/-- The handshake timer; whether the endpoint was declared dead. -/
def handshakeTimer (now : ℕ) : StreamEngine × Bool :=
  if e.hsDeadline.elim false (fun dl => decide (dl ≤ now)) && !e.synAcked then
    let e := { e with hsRetries := e.hsRetries + 1 }
    if e.cfg.maxRetransmits < e.hsRetries then (e.declareDead, true)
    else
      ({ e with
          sendSyn := e.sendSyn || decide (e.phase = .synSent)
          sendSynack := e.sendSynack || decide (e.phase = .established)
          events := e.events ++ [.handshakeRto e.hsRetries]
          hsDeadline :=
            if e.trackLocalHandoffs then none else some (now + e.cfg.handshakeRtoMs) },
        false)
  else (e, false)

/-- The reordering timer. -/
def rackTimer (now : ℕ) : StreamEngine :=
  if e.cfg.rack && e.tx.rack.rackDeadline.elim false (fun dl => decide (dl ≤ now)) then
    e.rackRecover now
  else e

/-- Whether a timeout finds a flight without selective receipts that it may rewind. -/
def noSackRewind : Bool :=
  e.cfg.rtoRewindNoSack && e.tx.segs.all (fun s => !s.sacked) &&
    e.tx.segs.all (fun s => !s.localPending) && e.tx.segs.any fun s => !s.isFin

/-- The slow-start threshold after a timeout. -/
def rtoSsthresh : UInt32 :=
  let mss := e.cfg.mss32
  let basis :=
    if e.noSackRewind then max e.tx.flight (max (min e.tx.cong.cwnd e.tx.rwnd) mss)
    else e.tx.flight
  if e.noSackRewind && decide (e.tx.rto.consecRto = 1) then
    UInt32.ofNat (max (basis.toNat * 3 / 4) (2 * mss).toNat)
  else if e.cfg.rtoRewindNoSack && !e.noSackRewind then e.lossDecreaseWindow basis mss
  else max (basis / 2) (2 * mss)

/-- Repair after a timeout: rewind the flight, repair the proven holes, or collapse
to slow start. -/
def rtoRepair (ssthresh : UInt32) (rewind : Bool) (expiredRtoMs now : ℕ) : StreamEngine :=
  let mss := e.cfg.mss32
  let reduced := max (min (max ssthresh e.cfg.initCwnd) e.tx.rwnd) mss
  if rewind then
    let tx := e.tx.requeueUnsackedFlightForRto
    { e with
      tx := { tx with
        cong := { tx.cong with cwnd := reduced, paceNextMs := now, paceBudget := 0 }
        rto := { tx.rto with rtoDeadline := none } } }
  else if e.cfg.rtoRewindNoSack then
    let tx := (e.tx.markHoles true).markExpiredSackRepairs now expiredRtoMs
    let tx := tx.markOldestUnsackedForRto
    { e with
      tx := { tx with
        cong := { tx.cong with cwnd := reduced, paceNextMs := now, paceBudget := 0 }
        rto := { tx.rto with rtoDeadline := some (now + tx.rto.rtoMs) } } }
  else
    let tx := e.tx.markOldestUnsackedForRto
    { e with
      tx := { tx with
        cong := { tx.cong with cwnd := mss }
        rto := { tx.rto with rtoDeadline := some (now + tx.rto.rtoMs) } } }

/-- A data timeout; whether the endpoint was declared dead. -/
def dataRto (e : StreamEngine) (now : ℕ) : StreamEngine × Bool :=
  let e : StreamEngine := { e with tx.rto.consecRto := e.tx.rto.consecRto + 1 }
  if e.cfg.maxRetransmits < e.tx.rto.consecRto then (e.declareDead, true)
  else
    let appLimited := e.tx.pending.isEmpty && decide (e.tx.flight ≤ e.cfg.mss32) &&
      e.tx.rewindHigh.isNone && e.tx.segs.all fun s => !s.localPending
    let rewind := e.noSackRewind
    let ssthresh := e.rtoSsthresh
    let expiredRtoMs := e.tx.rto.rtoMs
    let flightEnd := e.tx.rewindHigh.elim e.tx.sndNxt fun high => Seq.max high e.tx.sndNxt
    let e : StreamEngine :=
      { e with
        events := e.events ++ [.dataRto e.tx.rto.consecRto e.tx.sndUna appLimited]
        tx := { e.tx with
          cong := { e.tx.cong with ssthresh := ssthresh, inRecovery := false, dupAcks := 0 }
          rto := { e.tx.rto with
            rtoBackoff := some ⟨now, flightEnd⟩
            rtoMs := min (e.tx.rto.rtoMs * 2) e.cfg.maxRtoMs } } }
    ((e.rtoRepair ssthresh rewind expiredRtoMs now).syncLocalRto now, false)

/-- The data timer: stale, a refused probe to repeat, or a timeout. -/
def dataTimer (now : ℕ) : StreamEngine × Bool :=
  let noNetworkFlight := e.trackLocalHandoffs &&
    !e.tx.segs.any fun s => !s.sacked && !s.localPending
  if e.tx.rto.rtoDeadline.elim true fun dl => decide (now < dl) then (e, false)
  else if e.tx.segs.isEmpty || noNetworkFlight then
    ({ e with tx.rto.rtoDeadline := none }, false)
  else if decide (e.tx.rwnd = 0) && e.tx.windowProbeHandedOff &&
      e.tx.persistProbe.elim false PersistProbe.replied then
    ({ e with
        tx := { e.tx with
          segs := updateFirst (fun _ => true) (fun s => { s with needsResend := true }) e.tx.segs
          rto := { e.tx.rto with rtoDeadline := none } } },
      false)
  else e.dataRto now

/-- The persist timer of a closed window. -/
def persistTimer (now : ℕ) : StreamEngine :=
  if e.persistDeadline.elim false fun dl => decide (dl ≤ now) then
    if e.zeroWindowBlocked then
      { e with
        forceProbe := true
        persistDeadline := some (now + max e.tx.rto.rtoMs e.cfg.minRtoMs) }
    else { e with persistDeadline := none }
  else e

/-- The acknowledgement timer, and a handshake timer that is no longer needed. -/
def ackTimer (now : ℕ) : StreamEngine :=
  let e := if e.ackDeadline.elim false fun dl => decide (dl ≤ now) then e.ackNow else e
  if e.synAcked then { e with hsDeadline := none } else e

/-- Advance time-driven behaviour. -/
def onTimeout (now : ℕ) : StreamEngine :=
  if e.phase = .closed then e
  else
    let e : StreamEngine := { e with tx.bbr := e.tx.bbr.advanceBbrProbe now e.cfg }
    if e.hsLocalDeadline.elim false fun dl => decide (dl ≤ now) then
      declareDead { e with hsLocalDeadline := none }
    else
      let (e, dead) := (e.ackTimer now).handshakeTimer now
      if dead then e
      else
        let e := e.rackTimer now
        let e : StreamEngine := { e with tx := e.tx.markDueSackRepairs now }
        let (e, dead) := e.dataTimer now
        if dead then e else e.persistTimer now

/-! ### The application's calls -/

/-- Queue bytes for sending; how many were accepted. -/
def write (data : List UInt8) : StreamEngine × ℕ :=
  if e.phase = .closed ∨ e.tx.finRequested then (e, 0)
  else ({ e with tx.pending := e.tx.pending ++ data }, data.length)

/-- Half-close: a FIN follows the last queued byte. -/
def finish : StreamEngine := { e with tx.finRequested := true }

/-- Abort. -/
def reset (reason : UInt8) : StreamEngine :=
  if e.phase ≠ .closed then { e with rstToSend := some reason, phase := .closed } else e

/-- Hand out up to `len` delivered bytes. -/
def read (len : ℕ) : StreamEngine × List UInt8 :=
  let (rx, bytes) := e.rx.takeRead (min len e.rx.readBuf.length)
  let e := { e with rx := rx }
  let threshold := min (max (e.rx.window / 2) 1) (UInt32.ofNat (max e.cfg.mss 1))
  let notify := !bytes.isEmpty && decide (e.phase = .established) && !e.rx.eof &&
    decide (e.rx.lastAckWindow ≤ threshold) &&
    decide (threshold ≤ sub32 e.rx.advertised e.rx.lastAckWindow)
  (if notify then e.ackNow else e, bytes)

/-- The next event. -/
def pollEvent : StreamEngine × Option Event :=
  ({ e with events := e.events.tail }, e.events.head?)

/-- The peer's FIN was delivered and everything before it read. -/
def isEof : Bool := e.rx.eof && e.rx.readBuf.isEmpty

/-- Everything sent, the FIN included, is acknowledged. -/
def isSendComplete : Bool :=
  e.tx.pending.isEmpty && e.tx.segs.isEmpty && (!e.tx.finRequested || e.tx.finAcked)

/-! ### The driver's handoff reports -/

/-- From now on a polled cell is only reserved until its handoff is reported. -/
def trackHandoffs : StreamEngine :=
  { e with trackLocalHandoffs := true, hsDeadline := none }

variable (accepted : List LocalTransmit)

/-- The carrier took a locally queued segment. -/
def handOffSeg (now : ℕ) (s : Seg) : Seg :=
  if s.localPending && accepted.contains (LocalTransmit.forSegment s) then
    { s with
      localPending := false
      handedOff := true
      sentMs := now
      sackRepairDeadline := none }
  else s

/-- The carrier took the cell of a remembered repair. -/
def handOffRepairs (now : ℕ) (segs : List Seg) (repairs : List RackRepair) : List RackRepair :=
  segs.foldl (fun repairs s =>
    if s.localPending && s.retransmitted && accepted.contains (LocalTransmit.forSegment s) then
      updateFirst (fun r => decide (r.start = s.seq) && decide (r.stop = s.stop))
        (fun r => { r with handedOffMs := some now }) repairs
    else repairs) repairs

/-- The carrier took the queued handshake cell. -/
def handOffHandshake (now : ℕ) : StreamEngine :=
  let handshake : LocalTransmit :=
    ⟨e.tx.iss, 0, if e.phase = .synSent then .syn else .synAck⟩
  if e.hsLocalPending && e.handshakeUnconfirmed && accepted.contains handshake then
    { e with
      hsLocalPending := false
      hsLocalDeadline := none
      hsDeadline := some (add64 now e.cfg.handshakeRtoMs) }
  else e

/-- The carrier took locally queued segments. -/
def handOffSegs (now : ℕ) : StreamEngine :=
  let repairs :=
    if e.cfg.rack then handOffRepairs accepted now e.tx.segs e.tx.rack.rackRepairs
    else e.tx.rack.rackRepairs
  let tx : TxState :=
    { e.tx with
      segs := e.tx.segs.map (handOffSeg accepted now)
      rack := { e.tx.rack with rackRepairs := repairs } }
  { e with tx := tx.refreshArmedRepairs.refreshLocalRto now }

/-- The carrier reports which cells it took. -/
def localHandoff (now : ℕ) : StreamEngine :=
  if accepted.isEmpty then e else (e.handOffHandshake accepted now).handOffSegs accepted now

/-- Whether a segment shares sequence space with `[start, stop)`. -/
def overlaps (start stop : UInt32) (s : Seg) : Bool := Seq.lt s.seq stop && Seq.lt start s.stop

/-- Cancel a queued DATA or FIN cell that the peer already has; whether it was. -/
def discardReceivedCell (cell : List UInt8) : StreamEngine × Bool :=
  match LocalTransmit.fromCell cell with
  | none => (e, false)
  | some token =>
    if token.kind ≠ .data ∧ token.kind ≠ .fin then (e, false)
    else
      let stop := token.seq + token.span
      let meets := overlaps token.seq stop
      if !Seq.leq stop e.tx.sndUna &&
          (!e.tx.segs.any meets || e.tx.segs.any fun s => meets s && !s.sacked) then (e, false)
      else
        ({ e with
            tx := { e.tx with
              segs := e.tx.segs.map fun s =>
                if meets s then { s with localPending := false } else s
              rack := { e.tx.rack with
                rackRepairs := e.tx.rack.rackRepairs.filter fun r =>
                  r.handedOffMs.isSome || decide (r.start ≠ token.seq) ||
                    decide (r.stop ≠ stop) } } },
          true)

end StreamEngine

/-! ### Operations and runs -/

/-- A call that can change an endpoint. -/
inductive Op where
  | write (data : List UInt8)
  | finish
  | reset (reason : UInt8)
  | read (len : ℕ)
  | pollEvent
  | onCell (cell : List UInt8) (now : ℕ)
  | pollTransmit (now : ℕ)
  | pollRepairTransmit (now : ℕ)
  | onTimeout (now : ℕ)
  | trackHandoffs
  | localHandoff (accepted : List LocalTransmit) (now : ℕ)
  | discardReceivedCell (cell : List UInt8)
deriving DecidableEq

/-- An endpoint with what the outside has seen of it so far. -/
structure Trace where
  engine : StreamEngine
  /-- The bytes `write` accepted. -/
  written : List UInt8
  /-- The bytes `read` returned. -/
  delivered : List UInt8
  /-- The cells emitted, oldest first. -/
  emitted : List (List UInt8)
deriving DecidableEq

namespace Trace

/-- An endpoint of which nothing has been seen. -/
def start (e : StreamEngine) : Trace := ⟨e, [], [], []⟩

/-- Record a poll. -/
def polled (t : Trace) (r : StreamEngine × Option (List UInt8)) : Trace :=
  { t with engine := r.1, emitted := t.emitted ++ r.2.toList }

/-- One call. -/
def step (t : Trace) : Op → Trace
  | .write data =>
    let r := t.engine.write data
    { t with engine := r.1, written := t.written ++ data.take r.2 }
  | .finish => { t with engine := t.engine.finish }
  | .reset reason => { t with engine := t.engine.reset reason }
  | .read len =>
    let r := t.engine.read len
    { t with engine := r.1, delivered := t.delivered ++ r.2 }
  | .pollEvent => { t with engine := t.engine.pollEvent.1 }
  | .onCell cell now => { t with engine := t.engine.onCell cell now }
  | .pollTransmit now => t.polled (t.engine.pollTransmit now)
  | .pollRepairTransmit now => t.polled (t.engine.pollRepairTransmit now)
  | .onTimeout now => { t with engine := t.engine.onTimeout now }
  | .trackHandoffs => { t with engine := t.engine.trackHandoffs }
  | .localHandoff accepted now => { t with engine := t.engine.localHandoff accepted now }
  | .discardReceivedCell cell => { t with engine := (t.engine.discardReceivedCell cell).1 }

/-- A sequence of calls. -/
def run (t : Trace) (ops : List Op) : Trace := ops.foldl step t

end Trace

end VeilNetwork.OnionStream
