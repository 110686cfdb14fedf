import VeilNetwork.Lib.OrdMap
import VeilNetwork.Lib.Saturating
import VeilNetwork.OnionStream.Wire

/-!
# The state of one stream endpoint

The records of `engine.rs`: the tunables, the segments in flight, the sending half
`TxState`, the receiving half `RxState` and the endpoint `StreamEngine` that holds
both, with the two constructors `connect` and `accept`.

Sequence numbers, windows and every other `u32` are `UInt32`, with the wrapping
arithmetic of a release build; times and other `u64` counters are natural numbers,
saturated where the code saturates. The fields of the sending half are grouped by
the machine they belong to – the retransmission timer `Rto`, the delivery-rate
model `Bbr`, the reordering detector `Rack`, the congestion window `Cong` – so that
the type of an estimator already says which fields it leaves alone.
-/

namespace VeilNetwork.OnionStream

open Saturating

/-! ### Constants -/

def bbrRateWindowMs : ℕ := 2000
def bbrSampleSpacingMs : ℕ := 20
def bbrMinSpanMs : ℕ := 300
def bbrMinDelivered : ℕ := 64 * 1024
def bbrBwWindowMs : ℕ := 10000
def bbrBwSampleSpacingMs : ℕ := 100
def bbrMinRttWindowMs : ℕ := 30000
def bbrProbeRttHoldMs : ℕ := 200
def sackLossThreshold : ℕ := 3
def rackSampleWindowMs : ℕ := 30000
def rackReorderBucketMs : ℕ := 1000
def rackRepairHistoryLimit : ℕ := 128

/-- Cap on the number of stored out-of-order intervals. -/
def maxReorderedSegments : ℕ := 8192

/-- Outstanding sequence space stays strictly below half the range. -/
def maxInflightBytes : UInt32 := 0x7FFFFFFF

/-! ### Tunables -/

/-- The tunables the engine reads: bytes for windows, milliseconds for timers. -/
structure Config where
  mss : ℕ
  initCwnd : UInt32
  initSsthresh : UInt32
  recvWindow : UInt32
  initRtoMs : ℕ
  minRtoMs : ℕ
  maxRtoMs : ℕ
  maxRetransmits : UInt32
  handshakeRtoMs : ℕ
  maxPacingBatch : UInt32
  rtoRewindNoSack : Bool
  lossDecreasePerMille : ℕ
  bbr : Bool
  ackEvery : ℕ
  ackDelayMs : ℕ
  warmBtlBw : ℕ
  warmRttMinMs : UInt32
  rack : Bool
  rackReoFloorMs : UInt32
deriving DecidableEq

namespace Config

/-- The maximum segment size as the 32-bit word the engine computes with. -/
def mss32 (cfg : Config) : UInt32 := UInt32.ofNat cfg.mss

/-- The default tunables. -/
def default : Config where
  mss := wireMss
  initCwnd := UInt32.ofNat (10 * wireMss)
  initSsthresh := u32Max
  recvWindow := UInt32.ofNat (1024 * wireMss)
  initRtoMs := 1000
  minRtoMs := 200
  maxRtoMs := 30000
  maxRetransmits := 12
  handshakeRtoMs := 1000
  maxPacingBatch := 4
  rtoRewindNoSack := false
  lossDecreasePerMille := 500
  bbr := false
  ackEvery := 2
  ackDelayMs := 5
  warmBtlBw := 0
  warmRttMinMs := 0
  rack := false
  rackReoFloorMs := 0

end Config

/-! ### Events and phases -/

/-- Connection-level events surfaced to the driver. -/
inductive Event where
  | connected
  | handshakeRto (retries : UInt32)
  | dataRto (consecRto sndUna : UInt32) (appLimited : Bool)
  | peerFinished
  | reset (reason : UInt8)
deriving DecidableEq

/-- Where an endpoint is in the life of the stream. -/
inductive Phase where
  | synSent
  | listen
  | established
  | closed
deriving DecidableEq

/-! ### The sending half -/

/-- One sent, unacknowledged segment; a FIN is a segment of span one without data. -/
structure Seg where
  seq : UInt32
  data : List UInt8
  isFin : Bool
  sentMs : ℕ
  retransmitted : Bool
  sacked : Bool
  needsResend : Bool
  localPending : Bool
  handedOff : Bool
  sackRepairDeadline : Option ℕ
  sackFirstRttMs : Option UInt32
deriving DecidableEq

namespace Seg

/-- Sequence space the segment consumes. -/
def span (s : Seg) : UInt32 := if s.isFin then 1 else UInt32.ofNat s.data.length

/-- The sequence number just past the segment. -/
def stop (s : Seg) : UInt32 := s.seq + s.span

end Seg

/-- What a locally queued cell carries. -/
inductive TransmitKind where
  | data
  | fin
  | syn
  | synAck
deriving DecidableEq

/-- The name of a locally queued cell. -/
structure LocalTransmit where
  seq : UInt32
  span : UInt32
  kind : TransmitKind
deriving DecidableEq

namespace LocalTransmit

/-- The name of an encoded cell. -/
def fromCell (cell : List UInt8) : Option LocalTransmit :=
  match Frame.decode cell with
  | some (.data _ seq _ payload) => some ⟨seq, UInt32.ofNat payload.length, .data⟩
  | some (.fin _ seq) => some ⟨seq, 1, .fin⟩
  | some (.syn _ isn _) => some ⟨isn, 0, .syn⟩
  | some (.synAck _ isn _ _) => some ⟨isn, 0, .synAck⟩
  | _ => none

/-- The name of the cell that carries a segment. -/
def forSegment (s : Seg) : LocalTransmit :=
  ⟨s.seq, s.span, if s.isFin then .fin else .data⟩

end LocalTransmit

/-- The flight a timeout protected. -/
structure RtoBackoff where
  startedMs : ℕ
  flightEnd : UInt32
deriving DecidableEq

/-- The byte sent past a closed window. -/
structure PersistProbe where
  seq : UInt32
  replied : Bool
deriving DecidableEq

/-- A drain and remeasurement of the minimum round trip. -/
structure RttProbe where
  startedMs : ℕ
  drainedAtMs : Option ℕ
  sampleMs : Option UInt32
deriving DecidableEq

/-- Metadata of a repair, kept past its cumulative acknowledgement. -/
structure RackRepair where
  start : UInt32
  stop : UInt32
  originalMs : ℕ
  handedOffMs : Option ℕ
deriving DecidableEq

/-- The retransmission timer. -/
structure Rto where
  srtt : Option UInt32
  rttvar : UInt32
  rtoMs : ℕ
  rtoDeadline : Option ℕ
  rtoBackoff : Option RtoBackoff
  rtoFreshSackUpdates : ℕ
  rtoSackedSegmentsSkipped : ℕ
  nextSackRepairMs : Option ℕ
  consecRto : UInt32
deriving DecidableEq

/-- The delivery-rate model. Samples are queues, oldest first. -/
structure Bbr where
  delivered : ℕ
  rateSamples : List (ℕ × ℕ)
  bbrLastAppLimitedMs : Option ℕ
  bwSamples : List (ℕ × ℕ)
  btlBw : ℕ
  bbrStartup : Bool
  bbrBwAtProbe : ℕ
  bbrStallRounds : ℕ
  bbrProbeCheckedMs : ℕ
  rttMin : Option (UInt32 × ℕ)
  bbrRttProbe : Option RttProbe
  bbrProbeRetryAfterMs : ℕ
deriving DecidableEq

/-- The time-threshold loss detector. -/
structure Rack where
  rackXmitMs : ℕ
  rackEndSeq : UInt32
  rackRttMs : UInt32
  rackReoMaxMs : UInt32
  rackReoSamples : List (ℕ × UInt32)
  rackDeadline : Option ℕ
  rackMinRtt : Option (UInt32 × ℕ)
  rackDsackRound : Option UInt32
  rackReoPersist : ℕ
  rackRepairs : List RackRepair
  rackDsackReoMs : UInt32
deriving DecidableEq

/-- The congestion window and the pacer. -/
structure Cong where
  cwnd : UInt32
  ssthresh : UInt32
  dupAcks : UInt32
  inRecovery : Bool
  recover : UInt32
  paceNextMs : ℕ
  paceBudget : UInt32
deriving DecidableEq

/-- The sending half of an endpoint. `pending` is written and not yet segmented,
`segs` is sent and unacknowledged, in sequence order. -/
structure TxState where
  iss : UInt32
  sndUna : UInt32
  sndNxt : UInt32
  pending : List UInt8
  segs : List Seg
  rwnd : UInt32
  windowHintProbeUsed : Bool
  persistProbe : Option PersistProbe
  rewindHigh : Option UInt32
  rewindFin : Bool
  finRequested : Bool
  finSent : Bool
  finAcked : Bool
  cong : Cong
  rto : Rto
  bbr : Bbr
  rack : Rack
deriving DecidableEq

/-! ### The receiving half -/

/-- The receiving half of an endpoint. `oo` holds the out-of-order intervals by
their first sequence number. -/
structure RxState where
  rcvNxt : UInt32
  window : UInt32
  lastAckWindow : UInt32
  readBuf : List UInt8
  oo : OrdMap UInt32 (List UInt8)
  ooBytes : ℕ
  peerFinSeq : Option UInt32
  eof : Bool
deriving DecidableEq

/-! ### The endpoint -/

/-- One endpoint of a reliable byte stream. -/
structure StreamEngine where
  streamId : UInt32
  cfg : Config
  phase : Phase
  tx : TxState
  rx : RxState
  sendSyn : Bool
  sendSynack : Bool
  synAcked : Bool
  hsDeadline : Option ℕ
  hsRetries : UInt32
  hsLocalPending : Bool
  hsLocalDeadline : Option ℕ
  ackPending : Bool
  duplicateRange : Option SackRange
  recentSackSeq : Option UInt32
  sackRecentPromotions : ℕ
  ackEliciting : ℕ
  ackDeadline : Option ℕ
  rstToSend : Option UInt8
  persistDeadline : Option ℕ
  forceProbe : Bool
  events : List Event
  trackLocalHandoffs : Bool
deriving DecidableEq

namespace StreamEngine

variable (cfg : Config)

/-- Whether the delivery model starts from a previous stream's estimate. -/
def warm : Bool := cfg.bbr && decide (0 < cfg.warmBtlBw)

/-- The seeded minimum round trip. -/
def warmRtt : Option (UInt32 × ℕ) :=
  if warm cfg ∧ 0 < cfg.warmRttMinMs then some (cfg.warmRttMinMs, 0) else none

/-- The first congestion window, opened near the seeded bandwidth-delay product. -/
def initialCwnd : UInt32 :=
  let initCwnd := max cfg.initCwnd cfg.mss32
  match warmRtt cfg with
  | some (rttMs, _) =>
    let bdp := min (min (mul64 cfg.warmBtlBw rttMs.toNat / 1000) (1024 * 1024))
      cfg.recvWindow.toNat
    max initCwnd (UInt32.ofNat bdp)
  | none => initCwnd

/-- A fresh sending half. -/
def newTx (iss : UInt32) : TxState where
  iss := iss
  sndUna := iss
  sndNxt := iss
  pending := []
  segs := []
  rwnd := cfg.mss32
  windowHintProbeUsed := false
  persistProbe := none
  rewindHigh := none
  rewindFin := false
  finRequested := false
  finSent := false
  finAcked := false
  cong :=
    { cwnd := initialCwnd cfg, ssthresh := cfg.initSsthresh, dupAcks := 0, inRecovery := false,
      recover := iss, paceNextMs := 0, paceBudget := 0 }
  rto :=
    { srtt := none, rttvar := 0, rtoMs := cfg.initRtoMs, rtoDeadline := none, rtoBackoff := none,
      rtoFreshSackUpdates := 0, rtoSackedSegmentsSkipped := 0, nextSackRepairMs := none,
      consecRto := 0 }
  bbr :=
    { delivered := 0, rateSamples := [], bbrLastAppLimitedMs := none,
      bwSamples := if warm cfg then [(0, cfg.warmBtlBw)] else [],
      btlBw := if warm cfg then cfg.warmBtlBw else 0, bbrStartup := true,
      bbrBwAtProbe := if warm cfg then cfg.warmBtlBw else 0, bbrStallRounds := 0,
      bbrProbeCheckedMs := 0, rttMin := (warmRtt cfg).map fun p => (max p.1 1, p.2),
      bbrRttProbe := none, bbrProbeRetryAfterMs := 0 }
  rack :=
    { rackXmitMs := 0, rackEndSeq := 0, rackRttMs := 0, rackReoMaxMs := 0, rackReoSamples := [],
      rackDeadline := none, rackMinRtt := none, rackDsackRound := none, rackReoPersist := 0,
      rackRepairs := [], rackDsackReoMs := 0 }

/-- A fresh receiving half. -/
def newRx : RxState where
  rcvNxt := 0
  window := min cfg.recvWindow maxInflightBytes
  lastAckWindow := min cfg.recvWindow maxInflightBytes
  readBuf := []
  oo := OrdMap.empty
  ooBytes := 0
  peerFinSeq := none
  eof := false

variable (streamId : UInt32) (cfg : Config)

/-- A fresh endpoint. -/
def new (iss : UInt32) : StreamEngine where
  streamId := streamId
  cfg := cfg
  phase := .listen
  tx := newTx cfg iss
  rx := newRx cfg
  sendSyn := false
  sendSynack := false
  synAcked := false
  hsDeadline := none
  hsRetries := 0
  hsLocalPending := false
  hsLocalDeadline := none
  ackPending := false
  duplicateRange := none
  recentSackSeq := none
  sackRecentPromotions := 0
  ackEliciting := 0
  ackDeadline := none
  rstToSend := none
  persistDeadline := none
  forceProbe := false
  events := []
  trackLocalHandoffs := false

/-- The initiator: queues a SYN, which consumes the sequence number `iss`. -/
def connect (now : ℕ) (iss : UInt32) : StreamEngine :=
  let e := new streamId cfg iss
  { e with
    phase := .synSent
    sendSyn := true
    tx := { e.tx with sndNxt := iss + 1 }
    hsDeadline := some (now + cfg.handshakeRtoMs) }

/-- The responder: waits for a SYN. -/
def accept (_now : ℕ) (iss : UInt32) : StreamEngine :=
  { new streamId cfg iss with phase := .listen }

end StreamEngine

/-- The two ways to open a stream. -/
inductive Role where
  | initiator
  | responder
deriving DecidableEq

namespace Role

/-- A fresh endpoint in its role. -/
def engine (role : Role) (streamId : UInt32) (cfg : Config) (now : ℕ) (iss : UInt32) :
    StreamEngine :=
  match role with
  | .initiator => StreamEngine.connect streamId cfg now iss
  | .responder => StreamEngine.accept streamId cfg now iss

/-- The sequence number of the first data byte: the SYN of the initiator consumes one. -/
def firstSeq (role : Role) (iss : UInt32) : UInt32 :=
  match role with
  | .initiator => iss + 1
  | .responder => iss

end Role

end VeilNetwork.OnionStream
