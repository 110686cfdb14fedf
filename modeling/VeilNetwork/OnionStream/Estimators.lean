import VeilNetwork.Lib.UpdateFirst
import VeilNetwork.OnionStream.State

/-!
# The estimators of the sending half

The retransmission timer, the delivery-rate model and the time-threshold loss
detector of `engine.rs`. Each is a function on its own group of fields; what it
reads elsewhere in the sending half (the segments in flight, the smoothed round
trip, the outstanding sequence space) is an argument.
-/

namespace VeilNetwork.OnionStream

open Saturating Queue

/-- Ceiling division. -/
def divCeil (a b : ℕ) : ℕ := (a + b - 1) / b

/-- A 64-bit duration cut to 32 bits. -/
def cut32 (ms : ℕ) : UInt32 := UInt32.ofNat (min ms u32Max.toNat)

/-- The smaller of an optional value and a new one. -/
def minOpt {α : Type*} [Min α] (old : Option α) (x : α) : Option α :=
  some (old.elim x fun o => min o x)

/-- The larger of an optional value and a new one. -/
def maxOpt {α : Type*} [Max α] (old : Option α) (x : α) : Option α :=
  some (old.elim x fun o => max o x)

/-! ### The retransmission timer -/

namespace Rto

variable (t : Rto)

/-- One round-trip sample (Jacobson–Karels). -/
def updateRto (rMs : UInt32) (cfg : Config) : Rto :=
  let (srtt, rttvar) :=
    match t.srtt with
    | none => (rMs, rMs / 2)
    | some srtt =>
      let delta := if srtt < rMs then rMs - srtt else srtt - rMs
      ((srtt * 7 + rMs) / 8, (t.rttvar * 3 + delta) / 4)
  let rto := srtt.toNat + (4 * max rttvar 1).toNat
  { t with srtt := some srtt, rttvar := rttvar, rtoMs := clamp64 rto cfg.minRtoMs cfg.maxRtoMs }

/-- A sample observed on an earlier SACK: it may only raise the timer. -/
def raiseRtoFromDeferredSample (rMs : UInt32) (cfg : Config) : Rto :=
  let u := t.updateRto rMs cfg
  let rtoMs := max u.rtoMs (clamp64 (mul64 rMs.toNat 3) cfg.minRtoMs cfg.maxRtoMs)
  if rtoMs ≤ t.rtoMs then t else { u with rtoMs := rtoMs }

variable (segs : List Seg)

/-- Restart the timer while something is in flight. -/
def armOrClearRto (now : ℕ) : Rto :=
  { t with rtoDeadline := if segs.isEmpty then none else some (now + t.rtoMs) }

/-- The earliest repair deadline of the flight. -/
def refreshSackRepairDeadline : Rto :=
  { t with nextSackRepairMs := (segs.filterMap Seg.sackRepairDeadline).min? }

/-- The timer follows the oldest segment that is on the network. -/
def refreshLocalRto (now : ℕ) : Rto :=
  match segs.find? fun s => !s.sacked && !s.localPending with
  | none => { t with rtoDeadline := none }
  | some first =>
    { t with
      rtoDeadline := some (max (t.rtoDeadline.getD (add64 now t.rtoMs))
        (add64 first.sentMs t.rtoMs)) }

end Rto

/-! ### The delivery-rate model -/

/-- Pacing quantum and batch of the delivery-rate model. -/
def bbrPacingParams (cfg : Config) (bandwidth : ℕ) (startup : Bool) : ℕ × UInt32 :=
  let rate := if startup then mul64 bandwidth 2 else mul64 bandwidth 5 / 4
  let mss := max cfg.mss 1
  let cellsPerSec := max (rate / mss) 1
  let quantum := clamp64 cfg.maxPacingBatch.toNat 1 32
  let interval := clamp64 (quantum * 1000 / cellsPerSec) 1 100
  let batch := clamp64 (divCeil (mul64 rate interval) (1000 * mss)) 1
    (max cfg.maxPacingBatch 1).toNat
  (interval, UInt32.ofNat batch)

/-- The small flight of a round-trip probe. -/
def bbrProbeWindow (cfg : Config) : UInt32 := cut32 (mul64 cfg.mss 4)

namespace Bbr

variable (b : Bbr)

/-- When the running probe ends. -/
def bbrProbeDeadline (cfg : Config) : Option ℕ :=
  b.bbrRttProbe.map fun probe =>
    let lease := add64 probe.startedMs (max cfg.maxRtoMs bbrProbeRttHoldMs)
    match probe.drainedAtMs, probe.sampleMs with
    | some at_, some _ => min (add64 at_ bbrProbeRttHoldMs) lease
    | _, _ => lease

/-- Conclude a probe whose deadline has passed. -/
def advanceBbrProbe (now : ℕ) (cfg : Config) : Bbr :=
  match b.bbrRttProbe, b.bbrProbeDeadline cfg with
  | some probe, some deadline =>
    if now < deadline then b
    else
      let failed : Bbr :=
        { b with
          bbrRttProbe := none
          bbrProbeRetryAfterMs := add64 now bbrMinRttWindowMs }
      match probe.drainedAtMs, probe.sampleMs with
      | some at_, some rtt =>
        if add64 at_ bbrProbeRttHoldMs ≤
            add64 probe.startedMs (max cfg.maxRtoMs bbrProbeRttHoldMs) then
          { b with bbrRttProbe := none, rttMin := some (rtt, now), bbrProbeRetryAfterMs := 0 }
        else failed
      | _, _ => failed
  | _, _ => b

/-- Continue a probe with one observation. -/
def measureProbe (probe : RttProbe) (rMs : UInt32) (sentMs now : ℕ) (flight : UInt32)
    (cfg : Config) : Bbr :=
  let probe :=
    if flight ≤ bbrProbeWindow cfg then
      let drainedAt := probe.drainedAtMs.getD now
      { probe with
        drainedAtMs := some drainedAt
        sampleMs := if drainedAt ≤ sentMs then minOpt probe.sampleMs (max rMs 1)
          else probe.sampleMs }
    else probe
  advanceBbrProbe { b with bbrRttProbe := some probe } now cfg

/-- One round-trip observation of an original; `flight` is the outstanding sequence
space. -/
def bbrOnRtt (rMs : UInt32) (sentMs now : ℕ) (flight : UInt32) (cfg : Config) : Bbr :=
  let b := b.advanceBbrProbe now cfg
  match b.bbrRttProbe with
  | some probe => b.measureProbe probe rMs sentMs now flight cfg
  | none =>
    match b.rttMin with
    | none => { b with rttMin := some (max rMs 1, now) }
    | some (least, stamp) =>
      if rMs ≤ least then { b with rttMin := some (max rMs 1, now) }
      else if now - stamp ≤ bbrMinRttWindowMs then b
      else if now < b.bbrProbeRetryAfterMs then b
      else b.measureProbe ⟨now, none, none⟩ rMs sentMs now flight cfg

/-- Drop delivery checkpoints that left the rate window, keeping two. -/
def trimRateSamples (now : ℕ) : List (ℕ × ℕ) → List (ℕ × ℕ)
  | [] => []
  | a :: l => if 2 ≤ l.length ∧ bbrRateWindowMs < now - a.1 then trimRateSamples now l else a :: l

/-- Drop bandwidth samples that left the filter window, keeping one. -/
def trimBwSamples (now : ℕ) : List (ℕ × ℕ) → List (ℕ × ℕ)
  | [] => []
  | a :: l => if bbrBwWindowMs < now - a.1 ∧ 1 ≤ l.length then trimBwSamples now l else a :: l

/-- Shortest and longest gap and number of gaps between checkpoints; nothing if two
coincide. -/
def clockGaps : List (ℕ × ℕ) → Option ℕ → ℕ × ℕ × ℕ → Option (ℕ × ℕ × ℕ)
  | [], _, acc => some acc
  | (at_, _) :: l, none, acc => clockGaps l (some at_) acc
  | (at_, _) :: l, some before, (shortest, longest, intervals) =>
    let gap := at_ - before
    if gap = 0 then none
    else clockGaps l (some at_) (min shortest gap, max longest gap, intervals + 1)

/-- Whether the checkpoints look like a regular delivery clock. -/
def bbrSeedHasRegularDeliveryClock (srtt : Option UInt32) : Bool :=
  match srtt.or (b.rttMin.map Prod.fst) with
  | none => false
  | some rtt =>
    match clockGaps b.rateSamples none (u64Max, 0, 0) with
    | none => false
    | some (shortest, longest, intervals) =>
      decide (3 ≤ intervals ∧ shortest ≤ rtt.toNat / 2 ∧ longest ≤ mul64 shortest 4)

/-- The end-of-startup test, once per round trip. -/
def checkPlateau (now : ℕ) (srtt : Option UInt32) : Bbr :=
  let roundMs := max (srtt.getD 0).toNat bbrMinSpanMs
  if now < add64 b.bbrProbeCheckedMs roundMs then b
  else
    let b := { b with bbrProbeCheckedMs := now }
    if mul64 b.bbrBwAtProbe 5 / 4 < b.btlBw then
      { b with bbrBwAtProbe := b.btlBw, bbrStallRounds := 0 }
    else
      let stalls := min (b.bbrStallRounds + 1) 255
      { b with bbrStallRounds := stalls, bbrStartup := b.bbrStartup && decide (stalls < 3) }

/-- Admit one qualifying rate sample into the max filter. -/
def recordBandwidth (sample now : ℕ) (fullyBacklogged : Bool) (srtt : Option UInt32) : Bbr :=
  let replacedSeed := fullyBacklogged && b.bwSamples.head?.elim false fun (at_, seed) =>
    decide (at_ = 0) && (decide (seed ≤ sample) || b.bbrSeedHasRegularDeliveryClock srtt)
  let bw := if replacedSeed then b.bwSamples.tail else b.bwSamples
  let store := bw.getLast?.elim true fun (t, _) => decide (t + bbrBwSampleSpacingMs ≤ now)
  let bw :=
    if store then bw ++ [(now, sample)]
    else bw.dropLast ++ (bw.getLast?.map fun (t, rate) => (t, max rate sample)).toList
  let bw := trimBwSamples now bw
  let b := { b with bwSamples := bw, btlBw := (bw.map Prod.snd).foldl max 0 }
  let b :=
    if replacedSeed then
      { b with bbrBwAtProbe := b.btlBw, bbrStallRounds := 0, bbrProbeCheckedMs := now }
    else b
  if b.bbrStartup && store then b.checkPlateau now srtt else b

/-- Credit newly delivered bytes and refresh the bottleneck-rate estimate. -/
def bbrOnDelivered (acked : UInt32) (now : ℕ) (backlogged : Bool) (mss : UInt32)
    (srtt : Option UInt32) : Bbr :=
  let delivered := add64 b.delivered acked.toNat
  let limited := if backlogged then b.bbrLastAppLimitedMs else some now
  let push := b.rateSamples.getLast?.elim true fun (t, _) =>
    decide (t + bbrSampleSpacingMs ≤ now)
  let samples := if push then b.rateSamples ++ [(now, delivered)] else b.rateSamples
  let samples := trimRateSamples now samples
  let b :=
    { b with delivered := delivered, bbrLastAppLimitedMs := limited, rateSamples := samples }
  match samples.head?, samples.getLast? with
  | some (t0, d0), some (t1, d1) =>
    let span := t1 - t0
    let bytes := d1 - d0
    let fullyBacklogged := backlogged && limited.elim true fun at_ => decide (at_ < t0)
    let minBytes :=
      if fullyBacklogged then min (max mss 1).toNat bbrMinDelivered else bbrMinDelivered
    if span < bbrMinSpanMs ∨ bytes < minBytes then b
    else b.recordBandwidth (mul64 bytes 1000 / max span 1) now fullyBacklogged srtt
  | _, _ => b

/-- The cap of the model on the effective window. -/
def bbrWindowCap (cfg : Config) : Option UInt32 :=
  if !cfg.bbr || b.btlBw = 0 then none
  else if b.bbrRttProbe.isSome then some (bbrProbeWindow cfg)
  else b.rttMin.map fun (rttMin, _) =>
    let bdp := mul64 b.btlBw rttMin.toNat / 1000
    let batch := (bbrPacingParams cfg b.btlBw b.bbrStartup).2
    let floor := min (mul64 cfg.mss (max (2 * batch.toNat) 4)) u32Max.toNat
    let gain := if b.bbrStartup then 3 else 2
    let cap := clamp64 (mul64 bdp gain) floor u32Max.toNat
    let mss := max cfg.mss 1
    UInt32.ofNat (cap - cap % mss)

end Bbr

/-! ### The time-threshold loss detector -/

namespace Rack

variable (r : Rack)

/-- Forget reordering evidence older than the sample window. -/
def expireRackReordering (now : ℕ) : Rack :=
  let oldest := (now - rackSampleWindowMs) / rackReorderBucketMs
  let kept := r.rackReoSamples.dropWhile fun p => decide (p.1 < oldest)
  if kept.length < r.rackReoSamples.length then
    { r with rackReoSamples := kept, rackReoMaxMs := (kept.map Prod.snd).foldl max 0 }
  else r

/-- Record one reordering gap. -/
def observeRackReordering (sample : UInt32) (now : ℕ) : Rack :=
  let r := r.expireRackReordering now
  let bucket := now / rackReorderBucketMs
  let samples :=
    match r.rackReoSamples.getLast? with
    | some (last, largest) =>
      if bucket ≤ last then r.rackReoSamples.dropLast ++ [(last, max largest sample)]
      else r.rackReoSamples ++ [(bucket, sample)]
    | none => [(bucket, sample)]
  { r with rackReoSamples := samples, rackReoMaxMs := max r.rackReoMaxMs sample }

/-- Advance the delivery point by one first receipt; the round trip it measured. -/
def rackOnDelivery (segSentMs : ℕ) (segEnd : UInt32) (now priorFrontier : ℕ)
    (retransmitted : Bool) : Rack × Option UInt32 :=
  let rtt := cut32 (now - segSentMs)
  let advance (r : Rack) : Rack × Option UInt32 :=
    if r.rackXmitMs < segSentMs ∨ (segSentMs = r.rackXmitMs ∧ Seq.gt segEnd r.rackEndSeq) then
      ({ r with rackXmitMs := segSentMs, rackEndSeq := segEnd }, some rtt)
    else (r, some rtt)
  if retransmitted then
    match r.rackMinRtt with
    | none => (r, none)
    | some (least, at_) =>
      if rackSampleWindowMs < now - at_ ∨ rtt < least then (r, none) else advance r
  else
    let fresh := r.rackMinRtt.elim true fun (m, t) =>
      decide (rtt ≤ m) || decide (rackSampleWindowMs < now - t)
    let r := if fresh then { r with rackMinRtt := some (max rtt 1, now) } else r
    let r :=
      if segSentMs < priorFrontier then
        r.observeRackReordering (cut32 (priorFrontier - segSentMs)) now
      else r
    advance r

/-- Remember a repair as evidence for duplicate reports. -/
def recordRackRepair (start stop : UInt32) (originalMs : ℕ) (handedOffMs : Option ℕ) (now : ℕ) :
    Rack :=
  let repairs := r.rackRepairs.filter fun p =>
    decide (now - p.handedOffMs.getD p.originalMs ≤ rackSampleWindowMs)
  let same (p : RackRepair) : Bool := decide (p.start = start) && decide (p.stop = stop)
  if repairs.any same then
    { r with
      rackRepairs := updateFirst same (fun p =>
        { p with handedOffMs := if handedOffMs.isSome then handedOffMs else p.handedOffMs })
        repairs }
  else
    let repairs := if repairs.length = rackRepairHistoryLimit then repairs.tail else repairs
    { r with rackRepairs := repairs ++ [⟨start, stop, originalMs, handedOffMs⟩] }

/-- What one duplicate report does to one remembered repair: kept, forgotten, or
matched with the span it measures. -/
def dsackMatch (first : SackRange) (least : UInt32) (now : ℕ) (p : RackRepair) :
    Bool × Option ℕ :=
  match p.handedOffMs with
  | none => (true, none)
  | some at_ =>
    if rackSampleWindowMs < now - at_ then (false, none)
    else if Seq.leq first.start p.start && Seq.geq first.stop p.stop then
      (false, some (now - p.originalMs - least.toNat))
    else (true, none)

/-- Whether the first range of an acknowledgement reports a duplicate. -/
def isDuplicateReport (ack : UInt32) (first : SackRange) (second : Option SackRange) : Bool :=
  Seq.leq first.stop ack ||
    second.elim false fun s => Seq.leq s.start first.start && Seq.geq s.stop first.stop

/-- Learn from a duplicate report; the last four arguments are the acknowledgement
ceiling, the outstanding range and the timer of the sending half. -/
def noteDsack (ack : UInt32) (sacks : SackVec) (now : ℕ) (ackLimit sndUna sndNxt : UInt32)
    (rtoMs : ℕ) : Rack :=
  match sacks.ranges with
  | [] => r
  | first :: rest =>
    if !Seq.lt first.start first.stop || Seq.gt first.stop ackLimit then r
    else if !isDuplicateReport ack first rest.head? then r
    else
      match r.rackMinRtt with
      | none => r
      | some (least, at_) =>
        if rackSampleWindowMs < now - at_ then r
        else
          let verdict := dsackMatch first least now
          let observation := (r.rackRepairs.filterMap fun p => (verdict p).2).min?
          let r := { r with rackRepairs := r.rackRepairs.filter fun p => (verdict p).1 }
          match observation with
          | none => r
          | some observation =>
            let round := r.rackDsackRound.filter fun stop => !Seq.geq sndUna stop
            match round with
            | some _ => { r with rackDsackRound := round }
            | none =>
              { r with
                rackDsackReoMs := max r.rackDsackReoMs (cut32 (min observation rtoMs))
                rackReoPersist := 16
                rackDsackRound := some sndNxt }

/-- One recovery ended without a duplicate report. -/
def completeRackRecovery : Rack :=
  let persist := r.rackReoPersist - 1
  { r with
    rackReoPersist := persist
    rackDsackReoMs := if persist = 0 then 0 else r.rackDsackReoMs }

/-- The reordering window. -/
def rackReoWnd (rttMin : Option (UInt32 × ℕ)) (srtt : Option UInt32) (cfg : Config) : UInt32 :=
  let base := rttMin.elim (srtt.getD 0 / 4) fun p => p.1 / 4
  max (max (max (max base r.rackDsackReoMs) cfg.rackReoFloorMs) (mul32 (r.rackReoMaxMs / 4) 5)) 5

end Rack

end VeilNetwork.OnionStream
