import Mathlib.Algebra.BigOperators.Fin

/-!
# The outgoing queue

The weighted round-robin queue of `priority_queue.rs`, between the outbox of a session and
its wire. There are seven queues, one per local class, with a common budget `maxDepth` for
the entries that hold no reliable credit and a budget of its own for the loss-tolerant
entries of each class. An entry leaves because it is popped, because it expired, because
the local work it belongs to was rejected, or because room has to be made; the queue keeps
two counters beside its entries by hand, the number of lossy entries of each class and the
number of entries dropped.

Frames are of an arbitrary type: the queue never looks into them, its callers' predicates
do. Handles (carriers, credits, pending signals, works) are numbers; of a work the queue
only asks whether it is rejected, which its own expiry or a rejection through any of its
cells makes it. The clock is read once per call.
-/

namespace VeilNetwork.Session

/-! ### Classes -/

/-- A queue index. -/
abbrev Lane : Type := Fin 7

/-- `REALTIME`. -/
def realtime : Lane := 0

/-- `LOCAL_RECOVERABLE_DATA_LANE`. -/
def localRecoverableDataLane : UInt8 := 4

/-- `LOCAL_NETWORK_CONTROL_LANE`. -/
def localNetworkControlLane : UInt8 := 5

/-- `LOCAL_SIGNALING_LANE`. -/
def localSignalingLane : UInt8 := 6

/-- The queue of a local class; unknown choices clamp to `BACKGROUND`. -/
def queueIndex (priority : UInt8) : Lane :=
  if priority = localSignalingLane then 6
  else if priority = localNetworkControlLane then 5
  else if priority = localRecoverableDataLane then 4
  else ⟨min priority.toNat 3, by omega⟩

/-- `p as u8`. -/
def Lane.byte (p : Lane) : UInt8 := UInt8.ofNat p

/-- `LOSSY_REALTIME_MAX_DEPTH`. -/
def lossyRealtimeMaxDepth : ℕ := 64

/-- `LOCAL_PRIMARY_MAX_AGE`, in milliseconds. -/
def localPrimaryMaxAge : ℕ := 200

/-- How long a lossy frame may wait, in milliseconds. -/
def lossyRealtimeMaxAge (priority : UInt8) : ℕ :=
  if priority = realtime.byte then localPrimaryMaxAge
  else if priority = localSignalingLane then 5000
  else 500

/-! ### Frames in the queue -/

/-- A member of a local work. -/
structure LocalLossyCell where
  work : ℕ
  index : ℕ
deriving DecidableEq

/-- A frame with the transport data that follows it through the queue. -/
structure FrameEnvelope (F : Type) where
  priority : UInt8
  frame : F
  carrier : Option ℕ
  queuedAt : ℕ
  expiresAt : Option ℕ
  reliableCredit : Option ℕ
  signalingPending : Option ℕ
  localWork : Option LocalLossyCell
deriving DecidableEq

/-- A plain frame, as `From<PriorityFrame>` wraps it. -/
def FrameEnvelope.ofFrame {F : Type} (now : ℕ) (priority : UInt8) (frame : F) :
    FrameEnvelope F :=
  ⟨priority, frame, none, now, none, none, none, none⟩

/-- An entry of a queue. -/
structure QueuedFrame (F : Type) where
  frame : F
  enqueuedAt : Option ℕ
  expiresAt : Option ℕ
  lossyRealtime : Bool
  carrier : Option ℕ
  reliableCredit : Option ℕ
  signalingPending : Option ℕ
  localWork : Option LocalLossyCell
deriving DecidableEq

/-- The entry made of an envelope. -/
def FrameEnvelope.queued {F : Type} (env : FrameEnvelope F) (enqueuedAt : Option ℕ) :
    QueuedFrame F where
  frame := env.frame
  enqueuedAt := enqueuedAt
  expiresAt := env.expiresAt
  lossyRealtime := enqueuedAt.isSome
  carrier := env.carrier
  reliableCredit := env.reliableCredit
  signalingPending := env.signalingPending
  localWork := env.localWork

/-- An entry that left a queue, with the queue and the place it had there. -/
structure Popped (F : Type) where
  lane : Lane
  place : ℕ
  entry : QueuedFrame F
deriving DecidableEq

/-- What a caller's predicate says about the head of a queue. -/
inductive HeadAdmission where
  | allow
  | deferSource
  | flushBatch
deriving DecidableEq

/-! ### Entries and counters -/

/-- The entries of the queue with the two counters kept beside them. `panicked` records a
counter taken below zero or an entry that had to be there and was not. -/
structure Stock (F : Type) where
  queues : Lane → List (QueuedFrame F)
  maxDepth : ℕ
  dropsTotal : UInt64
  lossyRealtimeLen : Lane → ℕ
  panicked : Bool

namespace Stock

variable {F : Type} (s : Stock F)

section

variable (p : Lane)

/-- Put back what a queue holds. -/
def setQueue (l : List (QueuedFrame F)) : Stock F :=
  { s with queues := Function.update s.queues p l }

/-- `drops_total.fetch_add(n)`. -/
def countDrops (n : ℕ) : Stock F :=
  { s with dropsTotal := s.dropsTotal + UInt64.ofNat n }

/-- `lossy_realtime_len[p] -= n`. -/
def subLossy (n : ℕ) : Stock F :=
  { s with
    lossyRealtimeLen := Function.update s.lossyRealtimeLen p (s.lossyRealtimeLen p - n)
    panicked := s.panicked || decide (s.lossyRealtimeLen p < n) }

variable (e : QueuedFrame F)

/-- `if queued.lossy_realtime { lossy_realtime_len[p] -= 1 }`. -/
def releaseLossy : Stock F :=
  if e.lossyRealtime then s.subLossy p 1 else s

/-- `if lossy_realtime { lossy_realtime_len[p] += 1 }`. -/
def chargeLossy : Stock F :=
  if e.lossyRealtime then
    { s with lossyRealtimeLen :=
        Function.update s.lossyRealtimeLen p (s.lossyRealtimeLen p + 1) }
  else s

/-- An entry enters at the back of its queue. -/
def pushBack : Stock F :=
  (s.setQueue p (s.queues p ++ [e])).chargeLossy p e

end

/-- The number of entries. -/
def len : ℕ := ∑ p, (s.queues p).length

/-- The number of entries without a reliable credit. -/
def uncredited : ℕ :=
  ∑ p, (s.queues p).countP fun e => e.reliableCredit.isNone

def isEmpty : Bool := decide (∀ p, s.queues p = [])

/-- Releasing an entry's place in the lossy budget subtracts one or nothing. -/
theorem releaseLossy_eq (p : Lane) (e : QueuedFrame F) :
    s.releaseLossy p e = s.subLossy p ([e].countP (·.lossyRealtime)) := by
  cases he : e.lossyRealtime with
  | true => simp [releaseLossy, he]
  | false =>
    simp [releaseLossy, subLossy, he]

end Stock

/-! ### The queue in its process -/

/-- The queue with its rounds, the clock, and what is known of the local works: their own
expiry and those rejected so far. -/
structure PriorityQueue (F : Type) extends Stock F where
  weights : Lane → ℕ
  slots : Lane → ℕ
  now : ℕ
  pacing : ℕ → Option ℕ
  refused : List ℕ

namespace PriorityQueue

variable {F : Type}

/-- `with_capacity_and_drop_counter`: the local queues take the weights of `BACKGROUND`
and `INTERACTIVE`. -/
def withCapacityAndDropCounter (weights : Fin 4 → ℕ) (maxDepth : ℕ) (dropsTotal : UInt64)
    (now : ℕ) (pacing : ℕ → Option ℕ) : PriorityQueue F where
  queues := fun _ => []
  maxDepth := maxDepth
  dropsTotal := dropsTotal
  lossyRealtimeLen := fun _ => 0
  panicked := false
  weights := ![weights 0, weights 1, weights 2, weights 3, weights 3, weights 1, weights 1]
  slots := ![weights 0, weights 1, weights 2, weights 3, weights 3, weights 1, weights 1]
  now := now
  pacing := pacing
  refused := []

section

variable (s : PriorityQueue F)

/-- Replace the entries and counters. -/
def withStock (t : Stock F) : PriorityQueue F := { s with toStock := t }

/-- `LocalLossyCell::rejected`, where there is a cell. -/
def rejected (cell : Option LocalLossyCell) : Bool :=
  cell.any fun c => (s.pacing c.work).any (· ≤ s.now) || s.refused.contains c.work

/-- `LocalLossyCell::reject`, where there is a cell. -/
def reject : Option LocalLossyCell → PriorityQueue F
  | none => s
  | some c => { s with refused := c.work :: s.refused }

/-- Works rejected from outside. -/
def refuse (works : List ℕ) : PriorityQueue F :=
  { s with refused := works ++ s.refused }

/-- `QueuedFrame::expired`. -/
def expired (priority : Lane) (e : QueuedFrame F) : Bool :=
  e.expiresAt.any (· ≤ s.now)
    || (e.lossyRealtime
      && e.enqueuedAt.any fun t => decide (lossyRealtimeMaxAge priority.byte < s.now - t))
    || s.rejected e.localWork

/-- One frame more dropped. -/
def countDrop : PriorityQueue F := s.withStock (s.toStock.countDrops 1)

/-- Take the entry at a place out of its queue and reject the work it belongs to. -/
def expel (p : Lane) (i : ℕ) (e : QueuedFrame F) : PriorityQueue F :=
  (s.withStock (s.setQueue p ((s.queues p).eraseIdx i))).reject e.localWork

/-- Take the entry at a place out of its queue for good, and count it. -/
def shedAt (p : Lane) (i : ℕ) (e : QueuedFrame F) : PriorityQueue F :=
  let s := s.expel p i e
  (s.withStock (s.releaseLossy p e)).countDrop

/-! ### Pushing -/

/-- Take every entry of rejected work out of a queue. Rejecting such a work again changes
no other entry's verdict. -/
def pruneRejectedWork (p : Lane) : PriorityQueue F :=
  let removed := (s.queues p).filter fun e => s.rejected e.localWork
  let kept := (s.queues p).filter fun e => !s.rejected e.localWork
  let lossy := removed.countP (·.lossyRealtime)
  (s.withStock (((s.setQueue p kept).subLossy p lossy).countDrops removed.length)).refuse
    ((removed.filterMap (·.localWork)).map (·.work))

/-- Make room in a class: drop its oldest lossy entry. -/
def shedOldestLossy (p : Lane) : PriorityQueue F :=
  match (s.queues p).findIdx? (·.lossyRealtime) with
  | none => s.withStock { s.toStock with panicked := true }
  | some i =>
    match (s.queues p)[i]? with
    | none => s
    | some e =>
      let s := s.expel p i e
      (s.withStock (s.subLossy p 1)).countDrop

/-- Drop the oldest entry without a credit of the first queue that has one. -/
def shedFrom (s : PriorityQueue F) : List Lane → Option (PriorityQueue F)
  | [] => none
  | p :: ps =>
    match (s.queues p).findIdx? (·.reliableCredit.isNone) with
    | none => s.shedFrom ps
    | some i =>
      match (s.queues p)[i]? with
      | none => none
      | some e => some (s.shedAt p i e)

/-- The queues at or below a class, the lowest first. -/
def lanesBelow (p : Lane) : List Lane := ((List.finRange 7).filter (p ≤ ·)).reverse

variable (env : FrameEnvelope F)

/-- The end of `push_entry`: making room can have rejected a sibling of the frame. -/
def enter (enqueuedAt : Option ℕ) : PriorityQueue F :=
  if s.rejected env.localWork then s.countDrop
  else s.withStock (s.pushBack (queueIndex env.priority) (env.queued enqueuedAt))

/-- No room is left for a frame without a credit. -/
def full : Bool :=
  decide (s.maxDepth ≤ s.len) && decide (s.maxDepth ≤ s.uncredited)

/-- A full queue sheds what is no more urgent, or refuses. -/
def pushEntry (enqueuedAt : Option ℕ) : PriorityQueue F :=
  if s.rejected env.localWork then s.countDrop
  else
    let s := if s.maxDepth ≤ s.len then (List.finRange 7).foldl pruneRejectedWork s else s
    if env.reliableCredit.isNone && s.full then
      match s.shedFrom (lanesBelow (queueIndex env.priority)) with
      | some s => s.enter env enqueuedAt
      | none => (s.reject env.localWork).countDrop
    else s.enter env enqueuedAt

/-- The frame is past its own deadline, or too old for its class. -/
def stale : Bool :=
  env.expiresAt.any (· ≤ s.now) || decide (lossyRealtimeMaxAge env.priority < s.now - env.queuedAt)

/-- Make room in the class of a lossy frame. -/
def makeLossyRoom (p : Lane) : PriorityQueue F :=
  let s := if lossyRealtimeMaxDepth ≤ s.lossyRealtimeLen p then s.pruneRejectedWork p else s
  if lossyRealtimeMaxDepth ≤ s.lossyRealtimeLen p then s.shedOldestLossy p else s

def pushLossyWithCarrier : PriorityQueue F :=
  if s.rejected env.localWork then s.countDrop
  else if s.stale env then (s.reject env.localWork).countDrop
  else (s.makeLossyRoom (queueIndex env.priority)).pushEntry env (some env.queuedAt)

def pushEnvelope (lossy : Bool) : PriorityQueue F :=
  if lossy then s.pushLossyWithCarrier env else s.pushEntry env none

def push (priority : UInt8) (frame : F) : PriorityQueue F :=
  s.pushEnvelope (.ofFrame s.now priority frame) false

end

/-! ### Popping -/

/-- Drop the expired entries at the head of a queue. -/
def dropExpired (p : Lane) : ℕ → PriorityQueue F → PriorityQueue F
  | 0, s => s
  | n + 1, s =>
    match s.queues p with
    | [] => s
    | e :: _ => if s.expired p e then dropExpired p n (s.shedAt p 0 e) else s

section

variable (s : PriorityQueue F)

/-- Take an entry out of its queue for the caller. -/
def takeAt (p : Lane) (i : ℕ) (e : QueuedFrame F) : PriorityQueue F :=
  let s := s.withStock (s.setQueue p ((s.queues p).eraseIdx i))
  s.withStock (s.releaseLossy p e)

/-- One slot of the round is used. -/
def useSlot (p : Lane) : PriorityQueue F :=
  { s with slots := Function.update s.slots p (s.slots p - 1) }

def resetRound : PriorityQueue F := { s with slots := s.weights }

end

/-- The first lane with a slot and a message. -/
def tryPopWithCurrentSlots : List Lane → PriorityQueue F → Option (Popped F) × PriorityQueue F
  | [], s => (none, s)
  | p :: ps, s =>
    if s.slots p = 0 then tryPopWithCurrentSlots ps s
    else
      let s := dropExpired p (s.queues p).length s
      match s.queues p with
      | [] => tryPopWithCurrentSlots ps s
      | e :: _ => (some ⟨p, 0, e⟩, (s.takeAt p 0 e).useSlot p)

/-- A round ends when no lane with a slot has a message. -/
def pop (s : PriorityQueue F) : Option (Popped F) × PriorityQueue F :=
  match tryPopWithCurrentSlots (List.finRange 7) s with
  | (some x, s) => (some x, s)
  | (none, s) =>
    if s.isEmpty then (none, s) else tryPopWithCurrentSlots (List.finRange 7) s.resetRound

/-- A predicate over heads: it is given the number of the call, the class, the frame,
whether the entry is a local reliable one, and its cell, and it may reject works. -/
abbrev HeadPredicate (F : Type) : Type :=
  ℕ → Lane → F → Bool → Option LocalLossyCell → HeadAdmission × List ℕ

/-- How one pass over the queues ends. -/
inductive Scan (F : Type) where
  | taken (x : Popped F)
  | flushed
  | passed (calls : ℕ)

/-- One pass of `pop_admitted_envelope` over the queues. -/
def scanAdmitted (predicate : HeadPredicate F) :
    List Lane → ℕ → PriorityQueue F → Scan F × PriorityQueue F
  | [], calls, s => (.passed calls, s)
  | p :: ps, calls, s =>
    if s.slots p = 0 then scanAdmitted predicate ps calls s
    else
      let s := dropExpired p (s.queues p).length s
      match s.queues p with
      | [] => scanAdmitted predicate ps calls s
      | e :: _ =>
        let ownedReliable := e.reliableCredit.isSome && e.carrier.isNone
        let verdict := predicate calls p e.frame ownedReliable e.localWork
        let s := s.refuse verdict.2
        match verdict.1 with
        | .allow => (.taken ⟨p, 0, e⟩, (s.takeAt p 0 e).useSlot p)
        | .deferSource => scanAdmitted predicate ps (calls + 1) s
        | .flushBatch => (.flushed, s)

/-- The next message that the caller admits. -/
def popAdmittedEnvelope (s : PriorityQueue F) (predicate : HeadPredicate F) :
    Option (Popped F) × PriorityQueue F :=
  match scanAdmitted predicate (List.finRange 7) 0 s with
  | (.taken x, s) => (some x, s)
  | (.flushed, s) => (none, s)
  | (.passed calls, s) =>
    let s := if s.isEmpty then s else s.resetRound
    match scanAdmitted predicate (List.finRange 7) calls s with
    | (.taken x, s) => (some x, s)
    | (_, s) => (none, s)

/-- How a pass over the queues ends: with an entry from the head of its queue, or with none. -/
def Scan.result : Scan F → Option (Popped F)
  | .taken x => some x
  | _ => none

/-- The weights of the seven queues. -/
def laneWeights (w : Fin 4 → ℕ) : Lane → ℕ := ![w 0, w 1, w 2, w 3, w 3, w 1, w 1]

/-! ### What the operations do to the entries -/

section

variable (s : PriorityQueue F)

@[simp] theorem withStock_toStock (t : Stock F) :
    (s.withStock t).toStock = t := rfl

@[simp] theorem reject_toStock (c : Option LocalLossyCell) : (s.reject c).toStock = s.toStock := by
  cases c <;> rfl

@[simp] theorem countDrop_toStock :
    s.countDrop.toStock = s.toStock.countDrops 1 := rfl

@[simp] theorem expel_toStock (p : Lane) (i : ℕ) (e : QueuedFrame F) :
    (s.expel p i e).toStock = s.toStock.setQueue p ((s.queues p).eraseIdx i) :=
  reject_toStock _ _

@[simp] theorem shedAt_toStock (p : Lane) (i : ℕ) (e : QueuedFrame F) :
    (s.shedAt p i e).toStock =
      ((s.toStock.setQueue p ((s.queues p).eraseIdx i)).subLossy p
        ([e].countP (·.lossyRealtime))).countDrops 1 := by
  simp [shedAt, Stock.releaseLossy_eq]

end

/-- What a search finds is an entry of the queue that meets the search's condition. -/
theorem exists_of_findIdx? {l : List (QueuedFrame F)} {q : QueuedFrame F → Bool} {i : ℕ}
    (h : l.findIdx? q = some i) : ∃ e, l[i]? = some e ∧ q e := by
  obtain ⟨hlt, hq, -⟩ := List.findIdx?_eq_some_iff_getElem.mp h
  exact ⟨l[i], List.getElem?_eq_getElem hlt, hq⟩

end PriorityQueue

end VeilNetwork.Session
