import VeilNetwork.Lib.Bytes
import VeilNetwork.Lib.Ledger
import Mathlib.Data.Finset.Insert

/-!
# The tracker of acknowledged deliveries

An envelope that asks for an acknowledgement is registered under its content id. It stays with the
tracker until the acknowledgement comes; each time its deadline passes before that it is sent again,
and after the last attempt it is given up. Beside the entries the tracker keeps a count and a number
of bytes for each recipient and the bytes of all entries, and it refuses a registration that would
take one of them past its limit.

Instants are nanoseconds, and a call reads the clock once. A tick visits the entries in the order in
which the hash map happens to hold them, which is an input of the call here.
-/

namespace VeilNetwork.Delivery

/-- Content ids, node ids, app ids and keys. -/
abbrev Id32 : Type := FixedBytes 32

def maxDeliveryAttempts : ℕ := 3

/-- The time to wait for an acknowledgement, `DELIVERY_ACK_TIMEOUT_MS` in nanoseconds. -/
def deliveryAckTimeout : ℕ := 5000 * 1000000

/-- A message that waits for its receipt. -/
structure PendingEntry where
  frames : List (List UInt8)
  frameBytesLen : ℕ
  nextHop : Id32
  dstNodeId : Id32
  srcAppId : Id32
  ackKey : Id32
  attempts : ℕ
  deadline : ℕ
deriving DecidableEq

inductive AckTickOutcome where
  | retransmit (contentId nextHop dstNodeId : Id32) (frames : List (List UInt8)) (attempt : ℕ)
  | failed (contentId srcAppId nextHop dstNodeId : Id32)
deriving DecidableEq

structure TrackerLimits where
  entries : ℕ
  entriesPerPeer : ℕ
  bytes : ℕ
  bytesPerPeer : ℕ
deriving DecidableEq

/-- The messages without a receipt. -/
structure PendingAckTracker where
  pending : Table Id32 PendingEntry
  perPeer : Ledger Id32
  totalBytes : ℕ
  perPeerBytes : Ledger Id32
  limits : TrackerLimits

/-- Addition of machine words. -/
def checkedAdd (a b : ℕ) : Option ℕ := if a + b < 2 ^ 64 then some (a + b) else none

/-- The bytes of the frames, if they can be counted. -/
def framesLen (frames : List (List UInt8)) : Option ℕ :=
  frames.foldlM (fun sum frame => checkedAdd sum frame.length) 0

/-- What a registration brings, apart from the clock. -/
structure Registration where
  contentId : Id32
  nextHop : Id32
  dstNodeId : Id32
  srcAppId : Id32
  ackKey : Id32
  frames : List (List UInt8)
deriving DecidableEq

/-- The entry of a registration. -/
def Registration.entry (r : Registration) (len now : ℕ) : PendingEntry where
  frames := r.frames
  frameBytesLen := len
  nextHop := r.nextHop
  dstNodeId := r.dstNodeId
  srcAppId := r.srcAppId
  ackKey := r.ackKey
  attempts := 1
  deadline := now + deliveryAckTimeout

/-- The entry is sent again. -/
def PendingEntry.again (entry : PendingEntry) (now : ℕ) : PendingEntry :=
  { entry with attempts := entry.attempts + 1, deadline := now + deliveryAckTimeout }

/-- The wait for an acknowledgement starts again, by way of an accepted hop. -/
def PendingEntry.rearm (entry : PendingEntry) (acceptedHop : Option Id32) (now : ℕ) :
    PendingEntry :=
  { entry with
    nextHop := acceptedHop.getD entry.nextHop
    deadline := now + deliveryAckTimeout }

namespace PendingAckTracker

def new (limits : TrackerLimits) : PendingAckTracker := ⟨∅, ∅, 0, ∅, limits⟩

/-! ### Registration -/

variable (t : PendingAckTracker) (r : Registration)

/-- The number of bytes of a registration and of all entries with it, if it is within the limits. An
entry that is replaced does not count. -/
def admission : Option (ℕ × ℕ) := do
  let frameBytesLen ← framesLen r.frames
  let existing := t.pending.lookup r.contentId
  let existingDst := existing.map (·.dstNodeId)
  let existingBytes := (existing.map (·.frameBytesLen)).getD 0
  guard ¬(existingDst = none ∧ t.limits.entries ≤ t.pending.size)
  guard ¬(existingDst ≠ some r.dstNodeId ∧
    t.limits.entriesPerPeer ≤ t.perPeer.balance r.dstNodeId)
  let nextTotal ← checkedAdd (t.totalBytes - existingBytes) frameBytesLen
  guard (nextTotal ≤ t.limits.bytes)
  let replacedHere := if existingDst = some r.dstNodeId then existingBytes else 0
  let nextPeerBytes ← checkedAdd (t.perPeerBytes.balance r.dstNodeId - replacedHere) frameBytesLen
  guard (nextPeerBytes ≤ t.limits.bytesPerPeer)
  return (frameBytesLen, nextTotal)

/-- The counts after an entry for a recipient has taken the place of a prior one. -/
def recount (perPeer : Ledger Id32) (prior : Option PendingEntry) (dst : Id32) : Ledger Id32 :=
  match prior with
  | none => perPeer.charge dst 1
  | some prev =>
    if prev.dstNodeId ≠ dst then (perPeer.refund prev.dstNodeId 1).charge dst 1 else perPeer

/-- The bytes after an entry for a recipient has taken the place of a prior one. -/
def rebill (perPeerBytes : Ledger Id32) (prior : Option PendingEntry) (dst : Id32) (len : ℕ) :
    Ledger Id32 :=
  match prior with
  | none => perPeerBytes.charge dst len
  | some prev => (perPeerBytes.refund prev.dstNodeId prev.frameBytesLen).charge dst len

/-- A registration within the limits is entered. -/
def enter (len nextTotal now : ℕ) : PendingAckTracker :=
  let prior := t.pending.lookup r.contentId
  { t with
    pending := t.pending.insert r.contentId (r.entry len now)
    totalBytes := nextTotal
    perPeerBytes := rebill t.perPeerBytes prior r.dstNodeId len
    perPeer := recount t.perPeer prior r.dstNodeId }

variable (now : ℕ)

/-- Enter a message, within the limits. -/
def registerFrames : Bool × PendingAckTracker :=
  match t.admission r with
  | none => (false, t)
  | some (len, nextTotal) => (true, t.enter r len nextTotal now)

/-- Register one frame. -/
def register (contentId nextHop dstNodeId srcAppId ackKey : Id32) (frame : List UInt8) (now : ℕ) :
    Bool × PendingAckTracker :=
  t.registerFrames ⟨contentId, nextHop, dstNodeId, srcAppId, ackKey, [frame]⟩ now

/-- Register all frames of one envelope. -/
def registerBatch : Bool × PendingAckTracker :=
  if r.frames.isEmpty then (false, t) else t.registerFrames r now

/-! ### Acknowledgement -/

variable (contentId : Id32)

/-- An entry leaves the tracker. -/
def release (entry : PendingEntry) : PendingAckTracker :=
  { t with
    pending := t.pending.erase contentId
    perPeer := t.perPeer.refund entry.dstNodeId 1
    totalBytes := t.totalBytes - entry.frameBytesLen
    perPeerBytes := t.perPeerBytes.refund entry.dstNodeId entry.frameBytesLen }

/-- A receipt came. -/
def ack : PendingAckTracker :=
  match t.pending.lookup contentId with
  | some entry => t.release contentId entry
  | none => t

def ackAndGetInfo : Option (Id32 × Id32) × PendingAckTracker :=
  match t.pending.lookup contentId with
  | some entry => (some (entry.nextHop, entry.srcAppId), t.release contentId entry)
  | none => (none, t)

/-! ### Ticks -/

/-- A tick under way: the tracker, the slots left and the outcomes so far. -/
structure Sweep where
  tracker : PendingAckTracker
  batchSlots : ℕ
  outcomes : List AckTickOutcome

/-- A tick comes to an entry. -/
def visit (inFlight : Finset Id32) (acc : Sweep) (contentId : Id32) : Sweep :=
  match acc.tracker.pending.lookup contentId with
  | none => acc
  | some entry =>
    if now < entry.deadline ∨ contentId ∈ inFlight then acc
    else if maxDeliveryAttempts ≤ entry.attempts then
      { acc with
        tracker := acc.tracker.release contentId entry
        outcomes := acc.outcomes ++
          [.failed contentId entry.srcAppId entry.nextHop entry.dstNodeId] }
    else if 1 < entry.frames.length ∧ acc.batchSlots = 0 then acc
    else
      { tracker := { acc.tracker with
          pending := acc.tracker.pending.insert contentId (entry.again now) }
        batchSlots := if 1 < entry.frames.length then acc.batchSlots - 1 else acc.batchSlots
        outcomes := acc.outcomes ++ [.retransmit contentId entry.nextHop entry.dstNodeId
          entry.frames (entry.attempts + 1)] }

/-- Every entry is visited once: first those named in `order`, then the others. -/
def tickWithBatchAdmission (inFlight : Finset Id32) (batchSlots : ℕ) (order : List Id32) :
    List AckTickOutcome × PendingAckTracker :=
  let acc := (order ++ t.pending.keys).eraseDups.foldl (visit now inFlight) ⟨t, batchSlots, []⟩
  (acc.outcomes, acc.tracker)

/-! ### Changes to an entry -/

/-- A hop took the retry, or none did. -/
def finishRetryAdmission (attempt : ℕ) (acceptedHop : Option Id32) (now : ℕ) : PendingAckTracker :=
  match t.pending.lookup contentId with
  | some entry =>
    if entry.attempts = attempt then
      { t with pending := t.pending.insert contentId (entry.rearm acceptedHop now) }
    else t
  | none => t

def updateNextHop (contentId newHop : Id32) : PendingAckTracker :=
  match t.pending.lookup contentId with
  | some entry => { t with pending := t.pending.insert contentId { entry with nextHop := newHop } }
  | none => t

end PendingAckTracker

end VeilNetwork.Delivery
