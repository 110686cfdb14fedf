import VeilNetwork.OnionStream.Engine

/-!
# What the stream's guarantees depend on

An endpoint has some eighty fields, most of them estimators, timers and flags that
decide *when* something is sent. What may be sent, and what is delivered, depends on
few: the phase, the sequence numbers, the queue, the bytes of the segments in
flight, the FIN and rewind flags, the peer's window and the receiving half. These
are collected in `View`. Beside its bytes an endpoint keeps notes that its guarantees
towards the peer and the driver depend on: for each segment in flight whether the peer
reported it, whether its cell still waits in the local queue and whether it ever left
it; how many bytes the delivery model has been credited with; the events not yet
polled; and what the next acknowledgement has to report. These are `Notes`.

This file says of every helper of the engine that it leaves the view alone, and most the notes too
(`Tends`). What the remaining ones do to the view is `Transitions`, and to the notes `Notes`.
-/

namespace VeilNetwork.OnionStream

open Queue List Function TxState

/-- The part of a segment that goes on the wire. -/
structure Body where
  seq : UInt32
  data : List UInt8
  isFin : Bool
deriving DecidableEq

namespace Body

/-- Sequence space the segment consumes. -/
def span (b : Body) : UInt32 := if b.isFin then 1 else UInt32.ofNat b.data.length

/-- The sequence number just past the segment. -/
def stop (b : Body) : UInt32 := b.seq + b.span

end Body

/-- What a segment carries. -/
def Seg.body (s : Seg) : Body := ⟨s.seq, s.data, s.isFin⟩

theorem Seg.stop_body (s : Seg) : s.body.stop = s.stop := rfl

/-- The sending half, as far as its bytes are concerned. -/
structure Core where
  sndUna : UInt32
  sndNxt : UInt32
  pending : List UInt8
  segs : List Body
  rewindHigh : Option UInt32
  rewindFin : Bool
  finRequested : Bool
  finSent : Bool
  finAcked : Bool
deriving DecidableEq

/-- The bytes of the sending half. -/
def TxState.core (tx : TxState) : Core where
  sndUna := tx.sndUna
  sndNxt := tx.sndNxt
  pending := tx.pending
  segs := tx.segs.map Seg.body
  rewindHigh := tx.rewindHigh
  rewindFin := tx.rewindFin
  finRequested := tx.finRequested
  finSent := tx.finSent
  finAcked := tx.finAcked

/-- The part of an endpoint its guarantees depend on. -/
structure View where
  phase : Phase
  streamId : UInt32
  cfg : Config
  iss : UInt32
  core : Core
  rwnd : UInt32
  forceProbe : Bool
  /-- An acknowledgement is due, now or at a deadline. -/
  owed : Bool
  /-- A SYN_ACK is due. -/
  greeting : Bool
  rx : RxState

/-- The view of an endpoint. -/
def StreamEngine.view (e : StreamEngine) : View where
  phase := e.phase
  streamId := e.streamId
  cfg := e.cfg
  iss := e.tx.iss
  core := e.tx.core
  rwnd := e.tx.rwnd
  forceProbe := e.forceProbe
  owed := e.ackPending || e.ackDeadline.isSome
  greeting := e.sendSynack
  rx := e.rx

/-- A segment in flight with what is known of it. -/
structure Mark where
  body : Body
  sacked : Bool
  localPending : Bool
  handedOff : Bool
deriving DecidableEq

/-- What is known of a segment. -/
def Seg.mark (s : Seg) : Mark := ⟨s.body, s.sacked, s.localPending, s.handedOff⟩

/-- The notes of an endpoint. -/
structure Notes where
  marks : List Mark
  credited : ℕ
  tracked : Bool
  events : List Event
  duplicate : Option SackRange
  recent : Option UInt32

/-- What an endpoint remembers beside its bytes. -/
def StreamEngine.notes (e : StreamEngine) : Notes where
  marks := e.tx.segs.map Seg.mark
  credited := e.tx.bbr.delivered
  tracked := e.trackLocalHandoffs
  events := e.events
  duplicate := e.duplicateRange
  recent := e.recentSackSeq

/-! ### Segments keep what they carry -/

section Readings

variable {β : Type*} (g : Seg → β)

/-- A reading of segments that does not look at whether they are marked for repair. -/
def IgnoresResend : Prop := ∀ (s : Seg) (resend : Bool), g { s with needsResend := resend } = g s

/-- A reading of segments that looks neither at that nor at when a repair is due. -/
def IgnoresRepair : Prop :=
  ∀ (s : Seg) (resend : Bool) (deadline : Option ℕ),
    g { s with needsResend := resend, sackRepairDeadline := deadline } = g s

variable {g}

theorem IgnoresRepair.resend (hg : IgnoresRepair g) : IgnoresResend g :=
  fun s resend => hg s resend s.sackRepairDeadline

end Readings

theorem Seg.ignoresRepair_mark : IgnoresRepair Seg.mark := fun _ _ _ => rfl

namespace TxState

section Repairs

variable {β : Type*} {g : Seg → β}

section Resend

variable (hg : IgnoresResend g)
include hg

theorem map_markHolesFrom (l : List Seg) : (markHolesFrom l).1.map g = l.map g := by
  induction l with
  | nil => rfl
  | cons s l ih =>
    rw [markHolesFrom]
    dsimp only
    split
    · rw [map_cons, map_cons, ih]
    · split
      · rw [map_cons, ih]
        exact congrArg (· :: _) (hg s true)
      · rw [map_cons, map_cons, ih]

theorem map_segs_markHoles (tx : TxState) (fallback : Bool) :
    (tx.markHoles fallback).segs.map g = tx.segs.map g := by
  rw [markHoles]
  dsimp only
  split
  · exact (map_updateFirst (fun s _ => hg s true) _).trans (map_markHolesFrom hg _)
  · exact map_markHolesFrom hg tx.segs

theorem map_segs_markOldestUnsackedForRto (tx : TxState) :
    tx.markOldestUnsackedForRto.segs.map g = tx.segs.map g :=
  map_updateFirst (fun s _ => hg s true) _

end Resend

variable (hg : IgnoresRepair g)
include hg

theorem map_expireRepairsFrom (now expired : ℕ) (l : List Seg) :
    (expireRepairsFrom now expired l).1.map g = l.map g := by
  induction l with
  | nil => rfl
  | cons s l ih =>
    rw [expireRepairsFrom]
    dsimp only
    split
    · rw [map_cons, map_cons, ih]
    · split
      · split <;> rw [map_cons, map_cons, ih]
        · exact congrArg (· :: _) (hg s true none)
        · exact congrArg (· :: _) (hg s s.needsResend _)
      · rw [map_cons, map_cons, ih]

theorem map_dueRepair (now : ℕ) (l : List Seg) : (l.map (dueRepair now)).map g = l.map g := by
  rw [map_map]
  refine map_congr_left fun s _ => ?_
  rw [comp_apply, dueRepair]
  split
  · exact hg s _ none
  · rfl

end Repairs

end TxState

namespace StreamEngine

/-! ### Helpers -/

/-- A helper that sees to estimators, timers and repairs: the view and the notes stay. -/
def Tends (e e' : StreamEngine) : Prop := e'.view = e.view ∧ e'.notes = e.notes

theorem Tends.trans {e e' e'' : StreamEngine} (h : Tends e e') (h' : Tends e' e'') : Tends e e'' :=
  ⟨h'.1.trans h.1, h'.2.trans h.2⟩

variable (e : StreamEngine)

theorem view_with_segs {segs : List Seg} (h : segs.map Seg.body = e.tx.segs.map Seg.body) :
    ({ e with tx.segs := segs } : StreamEngine).view = e.view := by
  simp only [view, core, h]

theorem tends_with_segs {segs : List Seg} (h : segs.map Seg.mark = e.tx.segs.map Seg.mark) :
    Tends e { e with tx.segs := segs } := by
  have hbody := congrArg (map Mark.body) h
  rw [map_map, map_map] at hbody
  exact ⟨view_with_segs e hbody, by simp only [notes, h]⟩

theorem view_ackNow : e.ackNow.view = { e.view with owed := true } := rfl

theorem view_ackData (advanced : Bool) (now : ℕ) :
    (e.ackData advanced now).view = { e.view with owed := true } := by
  rw [ackData]
  split
  · rfl
  · dsimp only
    split
    · rfl
    · simp only [view, Option.isSome_some, Bool.or_true]

theorem tends_notePeerProgress : Tends e e.notePeerProgress := by
  rw [notePeerProgress]
  split <;> exact ⟨rfl, rfl⟩

theorem tends_markHoles (fallback : Bool) : Tends e { e with tx := e.tx.markHoles fallback } :=
  tends_with_segs e (map_segs_markHoles Seg.ignoresRepair_mark.resend e.tx fallback)

theorem tends_syncLocalRto (now : ℕ) : Tends e (e.syncLocalRto now) := by
  rw [syncLocalRto]
  split <;> exact ⟨rfl, rfl⟩

theorem tends_refreshArmedRepairs : Tends e { e with tx := e.tx.refreshArmedRepairs } := by
  rw [refreshArmedRepairs]
  split <;> exact ⟨rfl, rfl⟩

theorem map_rackVerdict {β : Type*} {g : Seg → β} (hg : IgnoresResend g) (xmit : ℕ)
    (stop : UInt32) (timeout now : ℕ) (l : List Seg) :
    ((l.map (rackVerdict xmit stop timeout now)).map Prod.fst).map g = l.map g := by
  rw [map_map, map_map]
  refine map_congr_left fun s _ => ?_
  rw [comp_apply, rackVerdict]
  split
  · rfl
  · split
    · exact hg s true
    · rfl

theorem tends_rackRecover (now : ℕ) : Tends e (e.rackRecover now) := by
  have hdetect : Tends e (e.rackDetectLoss now).1 := by
    rw [rackDetectLoss]
    split
    · exact ⟨rfl, rfl⟩
    · exact tends_with_segs e (map_rackVerdict Seg.ignoresRepair_mark.resend _ _ _ _ e.tx.segs)
  rw [rackRecover]
  dsimp only
  split <;> exact hdetect

theorem delivered_advanceBbrProbe (b : Bbr) (now : ℕ) (cfg : Config) :
    (b.advanceBbrProbe now cfg).delivered = b.delivered := by
  rw [Bbr.advanceBbrProbe]
  repeat' split
  all_goals rfl

theorem tends_advanceBbrProbe (now : ℕ) :
    Tends e { e with tx.bbr := e.tx.bbr.advanceBbrProbe now e.cfg } :=
  ⟨rfl, by simp only [notes, delivered_advanceBbrProbe]⟩

/-! ### Acknowledgements -/

namespace AckContext

variable (c : AckContext)

theorem body_sackSeg (r : SackRange) (s : Seg) (acc : AckEvidence) :
    (c.sackSeg r s acc).1.body = s.body := by
  rw [sackSeg]
  split <;> rfl

theorem map_body_sackRange (r : SackRange) (l : List Seg) (acc : AckEvidence) :
    (c.sackRange r l acc).1.map Seg.body = l.map Seg.body := by
  induction l generalizing acc with
  | nil => rfl
  | cons s l ih =>
    rw [sackRange]
    rw [map_cons, map_cons, ih, body_sackSeg]

theorem map_body_sackRanges (rs : List SackRange) (l : List Seg)
    (acc : AckEvidence) : (c.sackRanges rs l acc).1.map Seg.body = l.map Seg.body := by
  induction rs generalizing l acc with
  | nil => rfl
  | cons r rs ih =>
    rw [sackRanges]
    rw [ih, map_body_sackRange]

end AckContext

theorem tends_ackProbe (ack : UInt32) (reopened refused : Bool) (now : ℕ) :
    Tends e (e.ackProbe ack reopened refused now) := by
  rw [ackProbe]
  split
  · exact ⟨rfl, rfl⟩
  · split
    · exact tends_with_segs e (map_updateFirst (fun s _ =>
        Seg.ignoresRepair_mark s true s.sackRepairDeadline) _)
    · exact ⟨rfl, rfl⟩

theorem tends_ackGrowth (ack acked : UInt32) : Tends e (e.ackGrowth ack acked) := by
  rw [ackGrowth]
  split
  · split
    · exact ⟨rfl, rfl⟩
    · split
      · exact ⟨rfl, rfl⟩
      · exact tends_markHoles e true
  · split <;> exact ⟨rfl, rfl⟩

theorem tends_ackTiming (acc : AckEvidence) (now : ℕ) : Tends e (e.ackTiming acc now) :=
  tends_syncLocalRto _ now

theorem tends_ackDuplicate : Tends e e.ackDuplicate := by
  rw [ackDuplicate]
  dsimp only
  split
  · exact tends_markHoles _ true
  · split
    · split
      · exact ⟨rfl, rfl⟩
      · exact tends_markHoles _ false
    · exact ⟨rfl, rfl⟩

theorem view_ackRates (acc : AckEvidence) (now : ℕ) :
    (e.ackRates acc now).view = e.view := by
  rw [ackRates]
  split <;> rfl

theorem tends_ackRack (ack : UInt32) (sacks : SackVec) (acc : AckEvidence) (now : ℕ) :
    Tends e (e.ackRack ack sacks acc now) := by
  rw [ackRack]
  generalize hrtt : (acc.rackRttSample.elim e fun rtt => { e with tx.rack.rackRttMs := rtt }) = e₁
  have hsample : Tends e e₁ := by
    rw [← hrtt]
    cases acc.rackRttSample <;> exact ⟨rfl, rfl⟩
  split
  · exact hsample.trans (tends_rackRecover _ now)
  · exact hsample

section

variable (now : ℕ)

theorem tends_ackTimers : Tends e (e.ackTimers now) :=
  (tends_syncLocalRto e now).trans (tends_refreshArmedRepairs _)

theorem view_ackFinish (ack : UInt32) (sacks : SackVec) (acc : AckEvidence)
    (now : ℕ) : (e.ackFinish ack sacks acc now).view = e.view := by
  rw [ackFinish, (tends_ackTimers _ now).1, (tends_ackRack _ ack sacks acc now).1, view_ackRates]

/-! ### Sending -/

theorem tends_armRto : Tends e (e.armRto now) := by
  rw [armRto]
  split <;> exact ⟨rfl, rfl⟩

theorem tends_refillPace : Tends e (e.refillPace now) := by
  rw [refillPace]
  split <;> exact ⟨rfl, rfl⟩

theorem tends_queueHandshake : Tends e (e.queueHandshake now) := by
  rw [queueHandshake]
  split <;> exact ⟨rfl, rfl⟩

variable (s : Seg)

theorem tends_recordResend (now : ℕ) : Tends e (e.recordResend s now) := by
  rw [recordResend]
  split <;> exact ⟨rfl, rfl⟩

theorem tends_resendProbe (now : ℕ) : Tends e (e.resendProbe s now) := by
  rw [resendProbe]
  repeat' split
  all_goals exact ⟨rfl, rfl⟩

/-- A segment goes out again. -/
theorem tends_resend (now : ℕ) :
    Tends { e with tx.segs := updateFirst wantsResend (e.resent now) e.tx.segs }
      (e.resend s now) :=
  (tends_refreshArmedRepairs _).trans ((tends_recordResend _ s now).trans
    ((tends_resendProbe _ s now).trans (tends_syncLocalRto _ now)))

theorem view_resend (now : ℕ) : (e.resend s now).view = e.view :=
  (tends_resend e s now).1.trans (view_with_segs e
    (map_updateFirst (g := Seg.body) (by intro s _; rfl) _))

/-! ### Timers -/

theorem tends_rackTimer : Tends e (e.rackTimer now) := by
  rw [rackTimer]
  split
  · exact tends_rackRecover e now
  · exact ⟨rfl, rfl⟩

theorem tends_markDueSackRepairs : Tends e { e with tx := e.tx.markDueSackRepairs now } := by
  rw [markDueSackRepairs]
  split
  · exact ⟨rfl, rfl⟩
  · exact tends_with_segs e (map_dueRepair Seg.ignoresRepair_mark now e.tx.segs)

theorem tends_ackTimer : Tends e (e.ackTimer now) := by
  have h : Tends e (if e.ackDeadline.elim false fun dl => decide (dl ≤ now) then e.ackNow
      else e) := by
    cases hdl : e.ackDeadline with
    | none => exact ⟨rfl, rfl⟩
    | some dl =>
      split
      · refine ⟨?_, rfl⟩
        rw [view_ackNow]
        simp only [view, hdl, Option.isSome_some, Bool.or_true]
      · exact ⟨rfl, rfl⟩
  rw [ackTimer]
  generalize (if e.ackDeadline.elim false fun dl => decide (dl ≤ now) then e.ackNow
    else e) = e₁ at h
  refine h.trans ?_
  split <;> exact ⟨rfl, rfl⟩

end

/-- The oldest segment goes out again after a timeout, with or without the holes. -/
theorem tends_markOldestUnsackedForRto :
    Tends e { e with tx := e.tx.markOldestUnsackedForRto } :=
  tends_with_segs e (map_segs_markOldestUnsackedForRto Seg.ignoresRepair_mark.resend e.tx)

theorem tends_markExpiredSackRepairs (now expired : ℕ) :
    Tends e { e with
      tx := ((e.tx.markHoles true).markExpiredSackRepairs now expired).markOldestUnsackedForRto } :=
  (tends_markHoles e true).trans ((tends_with_segs { e with tx := e.tx.markHoles true }
    (map_expireRepairsFrom Seg.ignoresRepair_mark now expired _)).trans
      (tends_markOldestUnsackedForRto
        { e with tx := (e.tx.markHoles true).markExpiredSackRepairs now expired }))

/-! ### Handoffs -/

section

variable (accepted : List LocalTransmit) (now : ℕ)

theorem body_handOffSeg (s : Seg) : (handOffSeg accepted now s).body = s.body := by
  rw [handOffSeg]
  split <;> rfl

theorem tends_handOffHandshake : Tends e (e.handOffHandshake accepted now) := by
  rw [handOffHandshake]
  split <;> split <;> exact ⟨rfl, rfl⟩

theorem tends_handOffSegs :
    Tends { e with tx.segs := e.tx.segs.map (handOffSeg accepted now) }
      (e.handOffSegs accepted now) :=
  tends_refreshArmedRepairs { e with
    tx := { e.tx with segs := e.tx.segs.map (handOffSeg accepted now), rack := _ } }

theorem view_localHandoff : (e.localHandoff accepted now).view = e.view := by
  rw [localHandoff]
  split
  · rfl
  · rw [(tends_handOffSegs _ accepted now).1, view_with_segs,
      (tends_handOffHandshake e accepted now).1]
    rw [map_map]
    exact map_congr_left fun s _ => body_handOffSeg accepted now s

end

theorem view_discardReceivedCell (cell : List UInt8) :
    (e.discardReceivedCell cell).1.view = e.view := by
  rw [discardReceivedCell]
  split
  · rfl
  · split
    · rfl
    · dsimp only
      split
      · rfl
      · refine view_with_segs e ?_
        rw [map_map]
        refine map_congr_left fun s _ => ?_
        rw [comp_apply]
        split <;> rfl

end StreamEngine

end VeilNetwork.OnionStream
