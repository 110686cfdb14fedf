import Mathlib.Data.List.TakeWhile
import Mathlib.Order.Nat
import VeilNetwork.OnionStream.View

/-!
# What one call can do

The inversion of the endpoint. `Move` lists the ways the view of an endpoint can
change, each with the guards the code has checked by then; `Trace.step_cases` shows
that every call is a sequence of moves, and `Emits` what kind of cell a poll can
return. Every guarantee of the stream is proved from these lists, never from the
code of a handler.
-/

namespace VeilNetwork.OnionStream

open OnionStream.Core

open List Option StreamEngine UInt32

/-! ### The sending half -/

namespace Core

variable (c : Core)

/-- The end of the sequence space ever used: `sndNxt`, or the ceiling of a rewound
flight if that is later. -/
def ceiling : UInt32 := c.rewindHigh.elim c.sndNxt fun high => Seq.max c.sndNxt high

/-- The acknowledgement a segment not yet handed off still allows. -/
def allowed (b : Body) : UInt32 :=
  let known := Seq.max b.seq c.sndUna
  Seq.min c.ceiling (c.rewindHigh.elim known fun high => Seq.max known (Seq.min high b.stop))

variable (ack : UInt32)

/-- A late acknowledgement of a rewound flight. -/
def trim : Core :=
  match c.rewindHigh with
  | none => c
  | some high =>
    let c :=
      if Seq.gt ack c.sndNxt then
        let dropBytes := (ack - c.sndNxt).toNat
        let dropBytes := if c.rewindFin && Seq.geq ack high then dropBytes - 1 else dropBytes
        { c with pending := c.pending.drop dropBytes, sndNxt := ack }
      else c
    if Seq.geq ack high then
      { c with finAcked := c.finAcked || c.rewindFin, rewindHigh := none, rewindFin := false }
    else c

/-- The segments an acknowledgement covers leave, from the front. -/
def retire : Core :=
  { c with
    segs := c.segs.dropWhile fun b => Seq.leq b.stop ack
    finAcked := c.finAcked || (c.segs.takeWhile fun b => Seq.leq b.stop ack).any Body.isFin
    sndUna := ack }

/-- An acknowledgement above `sndUna`. -/
def advance : Core := (c.retire ack).trim ack

variable (c : Core) (ack : UInt32)

theorem segs_advance : (c.advance ack).segs = c.segs.dropWhile fun b => Seq.leq b.stop ack := by
  rw [advance, trim]
  repeat' split
  all_goals rfl

theorem sndUna_advance : (c.advance ack).sndUna = ack := by
  rw [advance, trim]
  repeat' split
  all_goals rfl

/-- Whether an acknowledgement reaches the ceiling of a rewound flight. -/
def Reaches (c : Core) (ack : UInt32) : Prop := ∃ high ∈ c.rewindHigh, Seq.geq ack high = true

theorem reaches_iff {ack : UInt32} : c.Reaches ack ↔ c.rewindHigh.any (Seq.geq ack) = true := by
  rw [Reaches]
  cases c.rewindHigh <;> simp

/-- The FIN is acknowledged with the segments that leave, or with a rewound flight. -/
theorem finAcked_advance : (c.advance ack).finAcked =
    (c.finAcked || (c.segs.takeWhile fun b => Seq.leq b.stop ack).any Body.isFin ||
      c.rewindFin && c.rewindHigh.any (Seq.geq ack)) := by
  rw [advance, trim]
  split
  next hnone =>
    rw [show c.rewindHigh = none from hnone, any_none, Bool.and_false, Bool.or_false]
    rfl
  next high hhigh =>
    rw [show c.rewindHigh = some high from hhigh, any_some]
    cases hge : Seq.geq ack high with
    | true =>
      rw [Bool.and_true c.rewindFin]
      split <;> rfl
    | false =>
      rw [Bool.and_false c.rewindFin, Bool.or_false]
      split <;> rfl

/-- What an acknowledgement does to the other flags of the half-close. -/
theorem flags_advance :
    (c.advance ack).finSent = c.finSent ∧ (c.advance ack).finRequested = c.finRequested ∧
      ((c.advance ack).rewindFin = true → c.rewindFin = true) ∧
      ((c.advance ack).rewindFin = false → c.rewindFin = false ∨ c.Reaches ack) := by
  rw [advance, trim]
  split
  · exact ⟨rfl, rfl, id, .inl⟩
  next high hhigh =>
    by_cases hge : Seq.geq ack high = true
    · rw [if_pos hge]
      split <;> exact ⟨rfl, rfl, nofun, fun _ => .inr ⟨high, hhigh, hge⟩⟩
    · split <;> exact ⟨rfl, rfl, id, .inl⟩

/-- The bytes of a flight above `una`, FIN segments left out. -/
def requeued (una : UInt32) (segs : List Body) : List UInt8 :=
  segs.flatMap fun b =>
    if b.isFin then []
    else b.data.drop (if Seq.lt b.seq una then (una - b.seq).toNat else 0)

/-- The whole flight goes back in front of the queue. -/
def rewound (c : Core) : Core :=
  { c with
    segs := []
    pending := requeued c.sndUna c.segs ++ c.pending
    sndNxt := c.sndUna
    rewindHigh := some (c.rewindHigh.elim c.sndNxt fun high => Seq.max high c.sndNxt)
    rewindFin := c.rewindFin || c.segs.any Body.isFin
    finSent := c.finSent && !c.segs.any Body.isFin }

/-- `n` bytes of the queue become a segment. -/
def sendData (c : Core) (n : ℕ) : Core :=
  { c with
    pending := c.pending.drop n
    sndNxt := c.sndNxt + UInt32.ofNat n
    segs := c.segs ++ [⟨c.sndNxt, c.pending.take n, false⟩] }

/-- The FIN becomes a segment. -/
def sendFin (c : Core) : Core :=
  { c with
    sndNxt := c.sndNxt + 1
    finSent := true
    segs := c.segs ++ [⟨c.sndNxt, [], true⟩] }

end Core

/-! ### Moves -/

namespace View

/-- The room a window leaves above what is outstanding: below the ceiling of the
window, or one for a probe of a closed one. -/
def Room (v : View) (room : UInt32) : Prop :=
  (∃ window ≤ maxInflightBytes, v.core.sndNxt - v.core.sndUna < window ∧
    room ≤ window - (v.core.sndNxt - v.core.sndUna)) ∨
  v.forceProbe = true ∧ ∃ window ≤ v.rwnd,
    room ≤ max (window - (v.core.sndNxt - v.core.sndUna)) 1

end View

/-- One change of the view, with the frame that caused it, if one did. -/
inductive Move : Option Frame → View → View → Prop
  | close (f : Option Frame) (v : View) : Move f v { v with phase := .closed }
  | finish (v : View) : Move none v { v with core.finRequested := true }
  | owe (f : Option Frame) (v : View)
      (h : v.phase = .established ∨ ∃ frame ∈ f, frame.eliciting = true) :
      Move f v { v with owed := true }
  | settle (v : View) (win : UInt32) :
      Move none v { v with owed := false, rx.lastAckWindow := win }
  | greet (f : Option Frame) (v : View) (h : v.phase = .established) :
      Move f v { v with greeting := true }
  | greeted (v : View) : Move none v { v with greeting := false }
  | probe (f : Option Frame) (v : View) (hphase : v.phase = .established)
      (hsegs : v.core.segs = []) (hrwnd : v.rwnd = 0) : Move f v { v with forceProbe := true }
  | rewind (v : View) (hphase : v.phase ≠ .closed) (hsegs : v.core.segs ≠ []) :
      Move none v { v with core := v.core.rewound }
  | sendData (v : View) (n : ℕ) (room : UInt32) (hphase : v.phase = .established)
      (hroom : v.Room room) (hpos : 0 < n) (hle : n ≤ v.core.pending.length)
      (hmss : n ≤ v.cfg.mss32.toNat) (hn : n ≤ room.toNat) :
      Move none v { v with core := v.core.sendData n, forceProbe := false }
  | sendFin (v : View) (room : UInt32) (hphase : v.phase = .established) (hroom : v.Room room)
      (hpos : 1 ≤ room) (hpending : v.core.pending = []) (hreq : v.core.finRequested = true)
      (hsent : v.core.finSent = false) :
      Move none v { v with core := v.core.sendFin, forceProbe := false }
  | syn (v : View) (isn win : UInt32) (hphase : v.phase = .listen) :
      Move (some (.syn v.streamId isn win)) v
        { v with phase := .established, greeting := true, rwnd := win, rx.rcvNxt := isn + 1 }
  | synAck (v : View) (isn win : UInt32) (hphase : v.phase = .synSent) :
      Move (some (.synAck v.streamId isn win (v.iss + 1))) v
        { v with
          phase := .established
          rwnd := win
          rx.rcvNxt := isn
          core.sndUna := v.iss + 1
          core.sndNxt := Seq.max v.core.sndNxt (v.iss + 1) }
  | data (v : View) (seq win : UInt32) (payload : List UInt8) (hphase : v.phase ≠ .closed)
      (hne : payload ≠ []) :
      Move (some (.data v.streamId seq win payload)) v
        { v with rx := (v.rx.accept seq payload).1 }
  | fin (v : View) (seq : UInt32) (hphase : v.phase ≠ .closed) :
      Move (some (.fin v.streamId seq)) v
        { v with rx := { v.rx with peerFinSeq := some seq }.tryConsumeFin }
  | window (v : View) (ack win : UInt32) (sacks : SackVec) (probe : Bool)
      (hphase : v.phase = .listen ∨ v.phase = .established)
      (hprobe : probe = true → v.forceProbe = true ∧ win = 0) :
      Move (some (.ack v.streamId ack win sacks)) v { v with rwnd := win, forceProbe := probe }
  | advance (v : View) (ack win : UInt32) (sacks : SackVec)
      (hphase : v.phase = .listen ∨ v.phase = .established)
      (hlimit : ∃ limit ∈ v.core.ceiling :: v.core.segs.map v.core.allowed,
        Seq.gt ack limit = false)
      (hack : Seq.gt ack v.core.sndUna = true) :
      Move (some (.ack v.streamId ack win sacks)) v { v with core := v.core.advance ack }

variable {f : Option Frame} {v v' : View}

/-- What no move undoes. -/
theorem Move.keeps (h : Move f v v') :
    v'.streamId = v.streamId ∧ v'.cfg = v.cfg ∧ v'.iss = v.iss ∧
      (v.core.finRequested = true → v'.core.finRequested = true) ∧
      (v.core.finAcked = true → v'.core.finAcked = true) := by
  cases h with
  | finish => exact ⟨rfl, rfl, rfl, fun _ => rfl, id⟩
  | advance _ ack win sacks =>
    refine ⟨rfl, rfl, rfl, (v.core.flags_advance ack).2.1.trans, fun hacked => ?_⟩
    rw [v.core.finAcked_advance, hacked, Bool.true_or, Bool.true_or]
  | _ => exact ⟨rfl, rfl, rfl, id, id⟩

/-- A sequence of moves caused by one frame. -/
def Moves (f : Option Frame) : View → View → Prop := Relation.ReflTransGen (Move f)

namespace Moves

theorem refl (f : Option Frame) (v : View) : Moves f v v := Relation.ReflTransGen.refl

/-- A call that leaves the view alone. -/
theorem of_eq (h : v' = v) : Moves f v v' := by
  rw [h]
  exact refl f v

theorem single (h : Move f v v') : Moves f v v' :=
  Relation.ReflTransGen.single h

theorem trans {u w : View} (h : Moves f u v) (h' : Moves f v w) :
    Moves f u w := Relation.ReflTransGen.trans h h'

/-- What every move keeps, a sequence keeps. -/
theorem keep {P : View → Prop} (hmove : ∀ v v', Move f v v' → P v → P v') (h : Moves f v v')
    (hv : P v) : P v' := by
  induction h with
  | refl => exact hv
  | tail _ hstep ih => exact hmove _ _ hstep ih

/-- What no sequence of moves undoes. -/
theorem keeps (h : Moves f v v') :
    v'.streamId = v.streamId ∧ v'.cfg = v.cfg ∧ v'.iss = v.iss ∧
      (v.core.finRequested = true → v'.core.finRequested = true) ∧
      (v.core.finAcked = true → v'.core.finAcked = true) := by
  induction h with
  | refl => exact ⟨rfl, rfl, rfl, id, id⟩
  | tail _ hstep ih =>
    obtain ⟨h₁, h₂, h₃, h₄, h₅⟩ := hstep.keeps
    exact ⟨h₁.trans ih.1, h₂.trans ih.2.1, h₃.trans ih.2.2.1, fun h => h₄ (ih.2.2.2.1 h),
      fun h => h₅ (ih.2.2.2.2 h)⟩

end Moves

/-! ### Arriving cells -/

namespace StreamEngine

variable (e : StreamEngine)

theorem moves_onSyn (isn win : UInt32) (now : ℕ) :
    Moves (some (.syn e.streamId isn win)) e.view (e.onSyn isn win now).view := by
  rw [onSyn]
  split
  next hphase => exact .single (.syn e.view isn win hphase)
  next hphase => exact .single (.greet _ e.view hphase)
  · exact .refl _ _

theorem moves_onSynack (isn win ack : UInt32) :
    Moves (some (.synAck e.streamId isn win ack)) e.view (e.onSynack isn win ack).view := by
  rw [onSynack]
  split
  next hphase =>
    split
    · exact .refl _ _
    next hack =>
      obtain rfl : ack = e.tx.iss + 1 := not_not.mp hack
      exact (Moves.single (Move.synAck e.view isn win hphase)).trans
        (.single (.owe _ _ (.inl rfl)))
  · split
    next hphase => exact .single (.owe _ e.view (.inl hphase))
    · exact .refl _ _

/-- A blocked endpoint may be told to probe. -/
theorem moves_forceProbe {e : StreamEngine} (f : Option Frame)
    (h : e.zeroWindowBlocked = true) : Moves f e.view { e with forceProbe := true }.view := by
  simp only [zeroWindowBlocked, Bool.and_eq_true, decide_eq_true_eq, List.isEmpty_iff] at h
  have hsegs : e.view.core.segs = [] := congrArg (List.map Seg.body) h.1.1.2
  exact .single (.probe f e.view h.1.1.1 hsegs h.1.2)

theorem moves_onData (seq win : UInt32) (payload : List UInt8) (now : ℕ) :
    Moves (some (.data e.streamId seq win payload)) e.view
      (e.onData seq win payload now).view := by
  rw [onData]
  split
  · exact .refl _ _
  next hphase =>
    have hview := (tends_notePeerProgress e).1
    generalize e.notePeerProgress = e₁ at hview
    dsimp only
    split
    · exact .of_eq hview
    next hne =>
      rw [← hview]
      have hphase₁ : e₁.phase ≠ .closed := (congrArg View.phase hview).trans_ne hphase
      have hid : e₁.streamId = e.streamId := congrArg View.streamId hview
      have hmove := Move.data e₁.view seq win payload hphase₁ (mt isEmpty_iff.mpr hne)
      generalize hr : e₁.rx.accept seq payload = r
      have haccept : (e₁.view.rx.accept seq payload).1 = r.1 := congrArg Prod.fst hr
      rw [haccept] at hmove
      rw [← hid]
      refine (Moves.single hmove).trans ?_
      -- an acknowledgement becomes due, and the window hint may ask for a probe
      have hacked (e₂ : StreamEngine) : Moves (some (.data e₁.streamId seq win payload)) e₂.view
          (e₂.ackData r.2 now).view := by
        rw [view_ackData]
        exact .single (.owe _ _ (.inr ⟨_, rfl, rfl⟩))
      split
      · split
        next hprobe => exact (hacked _).trans (moves_forceProbe _ hprobe.2.1)
        · exact hacked { e₁ with duplicateRange := _, rx := r.1, recentSackSeq := some seq }
      · split
        next hprobe => exact (hacked _).trans (moves_forceProbe _ hprobe.2.1)
        · exact hacked { e₁ with duplicateRange := _, rx := r.1 }

theorem moves_onPeerFin (seq : UInt32) :
    Moves (some (.fin e.streamId seq)) e.view (e.onPeerFin seq).view := by
  rw [onPeerFin]
  split
  · exact .refl _ _
  next hphase =>
    have hview := (tends_notePeerProgress e).1
    generalize e.notePeerProgress = e₁ at hview
    have hphase₁ : e₁.phase ≠ .closed := (congrArg View.phase hview).trans_ne hphase
    have hid : e₁.streamId = e.streamId := congrArg View.streamId hview
    have hmove := Move.fin e₁.view seq hphase₁
    rw [← hview, ← hid]
    refine (Moves.single hmove).trans ?_
    dsimp only
    split <;> exact .single (.owe _ _ (.inr ⟨_, rfl, rfl⟩))

theorem moves_onRst (reason : UInt8) (f : Option Frame) :
    Moves f e.view (e.onRst reason).view := by
  rw [onRst]
  split
  · exact .single (.close f e.view)
  · exact .refl _ _

/-! ### Acknowledgements -/

/-- Some ceiling an acknowledgement must keep to is the one the code computes. -/
theorem ackLimit_mem (tx : TxState) :
    tx.ackLimit ∈ tx.core.ceiling :: tx.core.segs.map tx.core.allowed := by
  rw [TxState.ackLimit]
  split
  · exact mem_cons_self
  next s hs =>
    refine mem_cons_of_mem _ (mem_map.mpr ⟨s.body, ?_, rfl⟩)
    exact mem_map_of_mem (mem_of_find?_eq_some hs)

variable (c : AckContext)

theorem AckContext.retireTiming_finAcked (s : Seg) (acc : AckEvidence) :
    (c.retireTiming s acc).finAcked = acc.finAcked := by
  rw [retireTiming]
  split
  · rfl
  · dsimp only
    split <;> split <;> try split
    all_goals rfl

theorem AckContext.retireSeg_finAcked (s : Seg) (acc : AckEvidence) :
    (c.retireSeg s acc).finAcked = (acc.finAcked || s.isFin) := by
  have h (acc : AckEvidence) : (c.rackDelivery s acc).finAcked = acc.finAcked := rfl
  rw [retireSeg]
  split
  · rw [h, retireTiming_finAcked]
    split <;> rfl
  · rw [retireTiming_finAcked]
    split <;> rfl

/-- Retiring from the front, and whether a FIN was among what left. -/
theorem AckContext.retireLoop_eq (l : List Seg) (acc : AckEvidence) :
    (c.retireLoop l acc).1.map Seg.body =
        (l.map Seg.body).dropWhile (fun b => Seq.leq b.stop c.ack) ∧
      (c.retireLoop l acc).2.finAcked = (acc.finAcked ||
        ((l.map Seg.body).takeWhile fun b => Seq.leq b.stop c.ack).any Body.isFin) := by
  induction l generalizing acc with
  | nil => exact ⟨rfl, (Bool.or_false _).symm⟩
  | cons s l ih =>
    rw [retireLoop, map_cons, dropWhile_cons, takeWhile_cons, Seg.stop_body]
    split
    · obtain ⟨h₁, h₂⟩ := ih (c.retireSeg s acc)
      refine ⟨h₁, ?_⟩
      rw [h₂, retireSeg_finAcked, Bool.or_assoc]
      rfl
    · exact ⟨rfl, (Bool.or_false _).symm⟩

theorem AckContext.partialOverlap_finAcked (segs : List Seg)
    (acc : AckEvidence) : (c.partialOverlap segs acc).finAcked = acc.finAcked := by
  rw [partialOverlap]
  split
  · dsimp only
    split <;> rfl
  · rfl

theorem core_trim (tx : TxState) (ack : UInt32) :
    (tx.trimRewoundPendingAfterAck ack).core = tx.core.trim ack ∧
      (tx.trimRewoundPendingAfterAck ack).iss = tx.iss ∧
      (tx.trimRewoundPendingAfterAck ack).rwnd = tx.rwnd := by
  have hdrop (n : ℕ) : tx.pending.drop (min n tx.pending.length) = tx.pending.drop n := by
    rcases le_total n tx.pending.length with h | h
    · rw [min_eq_left h]
    · rw [min_eq_right h, drop_length, drop_eq_nil_of_le h]
  simp only [TxState.trimRewoundPendingAfterAck, trim, hdrop]
  have hhigh : tx.core.rewindHigh = tx.rewindHigh := rfl
  rw [hhigh]
  cases tx.rewindHigh with
  | none => exact ⟨rfl, rfl, rfl⟩
  | some high =>
    have hnxt : tx.core.sndNxt = tx.sndNxt := rfl
    dsimp only
    rw [hnxt]
    split <;> split <;> exact ⟨rfl, rfl, rfl⟩

/-- What cumulative progress does to the view. -/
theorem view_ackAdvance (c : AckContext) (acc : AckEvidence) :
    (e.ackAdvance c acc).1.view = { e.view with core := e.view.core.advance c.ack } := by
  obtain ⟨hsegs, hfin⟩ := c.retireLoop_eq e.tx.segs { acc with finAcked := e.tx.finAcked }
  have hcore (tx : TxState) (htx : tx.core = e.tx.core.retire c.ack) (hiss : tx.iss = e.tx.iss)
      (hrwnd : tx.rwnd = e.tx.rwnd) :
      { e with tx := tx.trimRewoundPendingAfterAck c.ack }.view =
        { e.view with core := e.view.core.advance c.ack } := by
    obtain ⟨h₁, h₂, h₃⟩ := core_trim tx c.ack
    simp only [view, h₁, h₂, h₃, hiss, hrwnd, htx, advance]
  refine hcore _ ?_ rfl rfl
  simp only [TxState.core, retire, hsegs, AckContext.partialOverlap_finAcked, hfin]

theorem view_ackCumulative (c : AckContext) (acc : AckEvidence) :
    (e.ackCumulative c acc).1.view = { e.view with core := e.view.core.advance c.ack } := by
  have hview := view_ackAdvance e c acc
  rw [ackCumulative]
  rw [(tends_ackTiming _ _ _).1]
  split <;> exact (tends_ackGrowth _ _ _).1.trans hview

theorem moves_ackWindow (ack win : UInt32) (sacks : SackVec) (now : ℕ)
    (hphase : e.phase = .listen ∨ e.phase = .established) :
    Moves (some (.ack e.streamId ack win sacks)) e.view (e.ackWindow ack win now).view := by
  rw [ackWindow]
  split
  · dsimp only
    split
    · have hmove := Move.window e.view ack win sacks false hphase (by simp)
      split <;> exact .single hmove
    next hwin =>
      have hmove := Move.window e.view ack win sacks e.forceProbe hphase fun h =>
        ⟨h, UInt32.le_antisymm (UInt32.not_lt.mp hwin) UInt32.zero_le⟩
      split <;> exact .single hmove
  · exact .refl _ _

theorem core_sackRanges (c : AckContext) (ranges : List SackRange)
    (acc : AckEvidence) (rack : Rack) :
    ({ e with tx := { e.tx with
      segs := (c.sackRanges ranges e.tx.segs acc).1, rack := rack } } : StreamEngine).view =
        e.view :=
  view_with_segs e (c.map_body_sackRanges ranges e.tx.segs acc)

/-- The stages of an acknowledgement above or at the cumulative point. -/
theorem moves_ackAccepted (ack win : UInt32) (sacks : SackVec) (now : ℕ)
    (hphase : e.phase = .listen ∨ e.phase = .established)
    (hlimit : Seq.gt ack e.tx.ackLimit = false) :
    Moves (some (.ack e.streamId ack win sacks)) e.view (e.ackAccepted ack win sacks now).view := by
  have hlimit' : ∃ limit ∈ e.view.core.ceiling :: e.view.core.segs.map e.view.core.allowed,
      Seq.gt ack limit = false := ⟨_, ackLimit_mem e.tx, hlimit⟩
  have hwindow := moves_ackWindow e ack win sacks now hphase
  have hcore : (e.ackWindow ack win now).view.core = e.view.core ∧
      (e.ackWindow ack win now).view.phase = e.view.phase ∧
      (e.ackWindow ack win now).view.streamId = e.view.streamId := by
    rw [ackWindow]
    repeat' split
    all_goals exact ⟨rfl, rfl, rfl⟩
  rw [ackAccepted]
  generalize e.ackWindow ack win now = e₁ at hwindow hcore
  rw [view_ackFinish]
  refine hwindow.trans ?_
  obtain ⟨hcore, hph, hid⟩ := hcore
  rw [← hcore] at hlimit'
  -- the selective ranges and the probe leave the view alone, so that whatever they
  -- make of the endpoint, the cumulative point is compared with the same `sndUna`
  have hstages (e₂ : StreamEngine) (h₂ : e₂.view = e₁.view) (c : AckContext) (hc : c.ack = ack)
      (acc : AckEvidence) (refused changed : Bool) :
      Moves (some (.ack e.streamId ack win sacks)) e₁.view
        (if Seq.gt ack e₂.tx.sndUna then e₂.ackCumulative c acc
          else if e₂.isDuplicateAck ack refused changed acc.newlyDelivered then
            (e₂.ackDuplicate, acc)
          else (e₂, acc)).1.view := by
    rw [← h₂]
    rw [← h₂] at hlimit' hph hid
    split
    next hgt =>
      rw [view_ackCumulative, hc, ← show e₂.view.streamId = e.streamId from hid]
      refine .single (.advance e₂.view ack win sacks ?_ hlimit' hgt)
      rwa [hph]
    · split
      · exact .of_eq (tends_ackDuplicate e₂).1
      · exact .refl _ _
  refine hstages _ ?_ _ rfl _ _ _
  exact (tends_ackProbe _ _ _ _ _).1.trans (core_sackRanges e₁ _ _ _ _)

theorem moves_onAck (ack win : UInt32) (sacks : SackVec) (now : ℕ) :
    Moves (some (.ack e.streamId ack win sacks)) e.view (e.onAck ack win sacks now).view := by
  have hview := (tends_notePeerProgress e).1
  rw [onAck]
  generalize e.notePeerProgress = e₁ at hview
  rw [← hview, ← show e₁.streamId = e.streamId from congrArg View.streamId hview]
  split
  · exact .refl _ _
  next hphase =>
    split
    · exact .refl _ _
    next hlimit =>
      refine moves_ackAccepted e₁ ack win sacks now ?_ (Bool.eq_false_iff.mpr hlimit)
      cases h : e₁.phase with
      | listen => exact .inl rfl
      | established => exact .inr rfl
      | synSent => exact absurd (.inl h) hphase
      | closed => exact absurd (.inr h) hphase

/-- **A cell moves the view only by the frame it decodes to.** -/
theorem moves_onCell (cell : List UInt8) (now : ℕ) :
    Moves (Frame.decode cell) e.view (e.onCell cell now).view := by
  rw [onCell]
  cases Frame.decode cell with
  | none => exact .refl _ _
  | some frame =>
    dsimp only
    split
    · exact .refl _ _
    next hid =>
      obtain hid : e.streamId = frame.streamId := (not_not.mp hid).symm
      cases frame with
      | syn i isn win =>
        obtain rfl : e.streamId = i := hid
        exact moves_onSyn e isn win now
      | synAck i isn win ack =>
        obtain rfl : e.streamId = i := hid
        exact moves_onSynack e isn win ack
      | data i seq win payload =>
        obtain rfl : e.streamId = i := hid
        exact moves_onData e seq win payload now
      | ack i ack win sacks =>
        obtain rfl : e.streamId = i := hid
        exact moves_onAck e ack win sacks now
      | fin i seq =>
        obtain rfl : e.streamId = i := hid
        exact moves_onPeerFin e seq
      | rst => exact moves_onRst e ..

/-- An acknowledgement that is for another stream, too late or past the ceiling is
ignored. -/
theorem view_onCell_of_ignored {e : StreamEngine} {cell : List UInt8} {i ack win : UInt32}
    {sacks : SackVec} (hcell : Frame.decode cell = some (.ack i ack win sacks))
    (h : i ≠ e.streamId ∨ e.phase = .closed ∨ Seq.gt ack e.tx.ackLimit = true) (now : ℕ) :
    (e.onCell cell now).view = e.view := by
  have hview := (tends_notePeerProgress e).1
  have htx : e.notePeerProgress.tx = e.tx := by
    rw [notePeerProgress]
    split <;> rfl
  have hphase : e.notePeerProgress.phase = e.phase := congrArg View.phase hview
  rw [onCell, hcell]
  dsimp only
  split
  · rfl
  next hid =>
    rw [onAck]
    rcases h with h | h | h
    · exact absurd h hid
    · rwa [if_pos (.inr (hphase.trans h))]
    · split
      · exact hview
      · rwa [htx, if_pos h]

/-! ### Timers -/

theorem moves_declareDead : Moves none e.view e.declareDead.view :=
  Moves.single (.close none e.view)

variable (now : ℕ)

theorem moves_handshakeTimer : Moves none e.view (e.handshakeTimer now).1.view := by
  rw [handshakeTimer]
  split
  · dsimp only
    split
    · exact moves_declareDead _
    · -- the responder's part of the handshake is due again only once it is established
      by_cases hphase : e.phase = .established
      · have hmove := Move.greet none e.view hphase
        simp only [view, hphase, decide_true, Bool.or_true] at hmove ⊢
        exact .single hmove
      · refine .of_eq ?_
        simp only [view, hphase, decide_false, Bool.or_false]
  · exact .refl _ _

/-- The flight goes back to the queue, or keeps its bytes. -/
theorem moves_rtoRepair (ssthresh : UInt32) (rewind : Bool)
    (expired now : ℕ) (hphase : e.phase ≠ .closed) (hsegs : e.tx.segs ≠ []) :
    Moves none e.view (e.rtoRepair ssthresh rewind expired now).view := by
  rw [rtoRepair]
  split
  · refine .single ?_
    have hmove := Move.rewind e.view hphase (mt map_eq_nil_iff.mp hsegs)
    convert hmove using 1
    simp only [view, TxState.core, rewound,
      requeued, flatMap_map, List.any_map]
    rfl
  · split
    · exact .of_eq (tends_markExpiredSackRepairs e now expired).1
    · exact .of_eq (tends_markOldestUnsackedForRto e).1

theorem moves_dataRto (hphase : e.phase ≠ .closed) (hsegs : e.tx.segs ≠ []) :
    Moves none e.view (e.dataRto now).1.view := by
  rw [dataRto]
  split
  · exact moves_declareDead _
  · have hrepair (e₁ : StreamEngine) (h₁ : e₁.view = e.view) (hsegs₁ : e₁.tx.segs ≠ [])
        (ssthresh : UInt32) (rewind : Bool) (expired : ℕ) :
        Moves none e.view (e₁.rtoRepair ssthresh rewind expired now).view := by
      rw [← h₁]
      exact moves_rtoRepair e₁ ssthresh rewind expired now
        ((congrArg View.phase h₁).trans_ne hphase) hsegs₁
    rw [(tends_syncLocalRto _ now).1]
    refine hrepair _ ?_ ?_ _ _ _
    · rfl
    · exact hsegs

theorem moves_dataTimer (hphase : e.phase ≠ .closed) :
    Moves none e.view (e.dataTimer now).1.view := by
  rw [dataTimer]
  split
  · exact .refl _ _
  · split
    · exact .refl _ _
    next hempty =>
      have hsegs : e.tx.segs ≠ [] := by
        intro h
        exact hempty (by rw [h]; rfl)
      split
      · exact .of_eq (view_with_segs e
          (Queue.map_updateFirst (g := Seg.body) (by intro s _; rfl) _))
      · exact moves_dataRto e now hphase hsegs

theorem moves_persistTimer : Moves none e.view (e.persistTimer now).view := by
  rw [persistTimer]
  split
  · split
    next hblocked => exact moves_forceProbe none hblocked
    · exact .refl _ _
  · exact .refl _ _

theorem moves_onTimeout : Moves none e.view (e.onTimeout now).view := by
  rw [onTimeout]
  split
  · exact .refl _ _
  next hphase =>
    dsimp only
    split
    · exact moves_declareDead _
    · generalize hbbr :
        ({ e with tx.bbr := e.tx.bbr.advanceBbrProbe now e.cfg } : StreamEngine) = e₀
      have h₀ : e₀.view = e.view := by
        rw [← hbbr]
        rfl
      have hhs := moves_handshakeTimer (e₀.ackTimer now) now
      rw [(tends_ackTimer e₀ now).1, h₀] at hhs
      split
      · exact hhs
      next halive =>
        have hphase₁ : ((e₀.ackTimer now).handshakeTimer now).1.phase ≠ .closed := by
          have hph : (e₀.ackTimer now).phase ≠ .closed :=
            (congrArg View.phase ((tends_ackTimer e₀ now).1.trans h₀)).trans_ne hphase
          revert halive
          rw [handshakeTimer]
          split
          · dsimp only
            split
            · exact fun halive => absurd rfl halive
            · exact fun _ => hph
          · exact fun _ => hph
        generalize ((e₀.ackTimer now).handshakeTimer now).1 = e₁ at hhs hphase₁
        have h₂ : ({ e₁.rackTimer now with
            tx := (e₁.rackTimer now).tx.markDueSackRepairs now } : StreamEngine).view = e₁.view :=
          ((tends_rackTimer e₁ now).trans (tends_markDueSackRepairs _ now)).1
        generalize ({ e₁.rackTimer now with
            tx := (e₁.rackTimer now).tx.markDueSackRepairs now } : StreamEngine) = e₂ at h₂
        have hdata := moves_dataTimer e₂ now ((congrArg View.phase h₂).trans_ne hphase₁)
        rw [h₂] at hdata
        refine hhs.trans (hdata.trans ?_)
        split
        · exact .refl _ _
        · exact moves_persistTimer _ now

end StreamEngine

/-! ### Emitted cells -/

/-- The frames a call can emit, by the views before and after it. -/
inductive Emits (v v' : View) : Frame → Prop
  | rst (reason : UInt8) : Emits v v' (.rst v'.streamId reason)
  | syn (win : UInt32) : Emits v v' (.syn v'.streamId v'.iss win)
  | synAck (win : UInt32) (hgreet : v.greeting = true) :
      Emits v v' (.synAck v'.streamId v'.iss win v'.rx.rcvNxt)
  | ack (win : UInt32) (sacks : SackVec) (howed : v.owed = true) (hphase : v.phase ≠ .closed)
      (hnxt : v'.rx.rcvNxt = v.rx.rcvNxt) : Emits v v' (.ack v'.streamId v'.rx.rcvNxt win sacks)
  | data (b : Body) (win : UInt32) (hphase : v'.phase = .established) (hb : b ∈ v'.core.segs)
      (hfin : b.isFin = false) : Emits v v' (.data v'.streamId b.seq win b.data)
  | fin (b : Body) (hphase : v'.phase = .established) (hb : b ∈ v'.core.segs)
      (hfin : b.isFin = true) : Emits v v' (.fin v'.streamId b.seq)

namespace StreamEngine

/-- What a poll does: moves, and a cell the views account for. -/
def Polls (v : View) (r : StreamEngine × Option (List UInt8)) : Prop :=
  Moves none v r.1.view ∧ ∀ cell ∈ r.2, ∃ f, Emits v r.1.view f ∧ cell = f.encode

variable {e : StreamEngine}

theorem emits_encodeSeg (v : View) {s : Seg} (hphase : e.phase = .established)
    (hs : s.body ∈ e.view.core.segs) : ∃ f, Emits v e.view f ∧ e.encodeSeg s = f.encode := by
  rw [encodeSeg]
  split
  next hfin => exact ⟨_, Emits.fin s.body hphase hs hfin, rfl⟩
  next hfin => exact ⟨_, Emits.data s.body _ hphase hs (Bool.eq_false_iff.mpr hfin), rfl⟩

variable {e' : StreamEngine}

theorem polls_pollAck {cell : List UInt8} (h : e.pollAck = some (e', cell)) :
    Polls e.view (e', some cell) := by
  rw [pollAck] at h
  split at h
  · cases h
  next hdue =>
    obtain ⟨hpending, hphase⟩ := not_or.mp hdue
    have howed : e.view.owed = true :=
      Bool.or_eq_true_iff.mpr (.inl (by simpa using hpending))
    cases h
    refine ⟨.single (.settle e.view _), ?_⟩
    intro cell hcell
    cases hcell
    exact ⟨_, Emits.ack _ _ howed hphase rfl, rfl⟩

theorem effectiveSendWindow_le (e : StreamEngine) :
    e.effectiveSendWindow ≤ maxInflightBytes ∧ e.effectiveSendWindow ≤ e.tx.rwnd := by
  have h : min (min e.tx.cong.cwnd e.tx.rwnd) maxInflightBytes ≤ maxInflightBytes ∧
      min (min e.tx.cong.cwnd e.tx.rwnd) maxInflightBytes ≤ e.tx.rwnd :=
    ⟨min_le_right _ _, (min_le_left _ _).trans (min_le_right _ _)⟩
  rw [effectiveSendWindow]
  split
  · exact ⟨(min_le_left _ _).trans h.1, (min_le_left _ _).trans h.2⟩
  · exact h

/-- The room the code computes is one the window leaves. -/
theorem room_sendRoom (h : ¬((!e.forceProbe) = true ∧ e.effectiveSendWindow ≤ e.tx.flight)) :
    e.view.Room e.sendRoom := by
  rw [sendRoom]
  split
  next hprobe => exact .inr ⟨hprobe, _, (effectiveSendWindow_le e).2, le_rfl⟩
  next hprobe =>
    refine .inl ⟨_, (effectiveSendWindow_le e).1, ?_, le_rfl⟩
    exact not_le.mp fun hle => h ⟨by simpa using hprobe, hle⟩

theorem view_pushData (e : StreamEngine) (n now : ℕ) : (e.pushData n now).view =
    { e.view with core := e.view.core.sendData n, forceProbe := false } := by
  rw [pushData, (tends_armRto _ now).1]
  simp only [view, TxState.core, map_append]
  rfl

theorem view_pushFin (e : StreamEngine) (now : ℕ) : (e.pushFin now).view =
    { e.view with core := e.view.core.sendFin, forceProbe := false } := by
  rw [pushFin, (tends_armRto _ now).1]
  simp only [view, TxState.core, map_append]
  rfl

/-- A move to a view with a segment, and the endpoint that has it. -/
theorem moves_of_view (hview : e'.view = v) (hmove : Move none e.view v)
    (hphase : v.phase = .established) (hsegs : v.core.segs ≠ []) :
    Moves none e.view e'.view ∧ e'.phase = .established ∧ e'.tx.segs ≠ [] := by
  subst hview
  exact ⟨.single hmove, hphase, fun hnil => hsegs (congrArg (map Seg.body) hnil)⟩

theorem moves_createNextSegment {now : ℕ} (h : e.createNextSegment now = some e')
    (hphase : e.phase = .established) :
    Moves none e.view e'.view ∧ e'.phase = .established ∧ e'.tx.segs ≠ [] := by
  rw [createNextSegment] at h
  split at h
  · cases h
  next hwindow =>
    have hroom := room_sendRoom hwindow
    split at h
    · dsimp only at h
      split at h
      · cases h
      next hpos =>
        cases h
        generalize hn :
          (min (min e.cfg.mss32 e.sendRoom) (ofNat e.tx.pending.length)).toNat = n at hpos
        have hmin : n ≤ (min e.cfg.mss32 e.sendRoom).toNat :=
          hn ▸ le_iff_toNat_le.mp (min_le_left _ _)
        have hlen : n ≤ (ofNat e.tx.pending.length).toNat :=
          hn ▸ le_iff_toNat_le.mp (min_le_right _ _)
        refine moves_of_view (view_pushData e n now) (.sendData e.view n e.sendRoom hphase
          hroom (Nat.pos_of_ne_zero hpos) (hlen.trans ?_)
          (hmin.trans (le_iff_toNat_le.mp (min_le_left _ _)))
          (hmin.trans (le_iff_toNat_le.mp (min_le_right _ _)))) hphase
          (append_ne_nil_of_right_ne_nil _ (cons_ne_nil _ _))
        exact Nat.mod_le _ _
    · split at h
      next hpending hfin =>
        cases h
        exact moves_of_view (view_pushFin e now) (.sendFin e.view e.sendRoom hphase hroom
          hfin.2.2 (not_not.mp hpending) hfin.1 ((Bool.not_eq_true' _).mp hfin.2.1)) hphase
          (append_ne_nil_of_right_ne_nil _ (cons_ne_nil _ _))
      · cases h

/-- **What a poll of the stream comes to**: a segment goes out again, a new one follows, an
acknowledgement is sent, or nothing. The pacer may have been refilled before. -/
inductive Streams (e : StreamEngine) (now : ℕ) : StreamEngine × Option (List UInt8) → Prop
  | again {s : Seg} (hphase : e.phase = .established) (hs : s ∈ (e.refillPace now).tx.segs) :
    Streams e now (((e.refillPace now).resend s now).spendPace,
      some (((e.refillPace now).resend s now).spendPace.encodeSeg s))
  | next {e' : StreamEngine} {s : Seg} (hphase : e.phase = .established)
    (h : (e.refillPace now).createNextSegment now = some e') (hs : s ∈ e'.tx.segs) :
    Streams e now (e'.spendPace, some (e'.spendPace.encodeSeg s))
  | ack {e₁ e' : StreamEngine} {cell : List UInt8} (hpace : e₁ = e ∨ e₁ = e.refillPace now)
    (h : e₁.pollAck = some (e', cell)) : Streams e now (e', some cell)
  | idle {e₁ : StreamEngine} (hpace : e₁ = e ∨ e₁ = e.refillPace now) :
    Streams e now (e₁.armPersist now, none)

theorem streams_pollStream (e : StreamEngine) (now : ℕ) (allowNew : Bool) :
    Streams e now (e.pollStream now allowNew) := by
  rw [pollStream]
  split
  next h =>
    split at h
    · cases h
    · exact .ack (.inl rfl) h
  · generalize hr : e.pollSegment now allowNew = r
    rw [pollSegment] at hr
    split at hr
    · subst hr
      dsimp only
      split
      next h => exact .ack (.inl rfl) h
      · exact .idle (.inl rfl)
    next hphase =>
      have hphase := not_not.mp hphase
      dsimp only at hr
      split at hr
      next s hs =>
        subst hr
        refine .again hphase ?_
        split at hs
        · exact mem_of_find?_eq_some hs
        · cases hs
      · split at hr
        next e' h =>
          split at h
          · obtain ⟨-, -, hsegs⟩ := moves_createNextSegment h
              ((congrArg View.phase (tends_refillPace e now).1).trans hphase)
            obtain ⟨s, hs⟩ := ne_none_iff_exists'.mp (mt getLast?_eq_none_iff.mp hsegs)
            have hlast : e'.spendPace.tx.segs.getLast? = some s := hs
            rw [hlast] at hr
            subst hr
            exact .next hphase h (mem_of_getLast? hs)
          · cases h
        · subst hr
          dsimp only
          split
          next h => exact .ack (.inr rfl) h
          · exact .idle (.inr rfl)

theorem tends_of_pace {e₁ : StreamEngine} {now : ℕ} (h : e₁ = e ∨ e₁ = e.refillPace now) :
    Tends e e₁ := by
  rcases h with rfl | rfl
  · exact ⟨rfl, rfl⟩
  · exact tends_refillPace e now

theorem polls_pollStream (e : StreamEngine) (now : ℕ) (allowNew : Bool) :
    Polls e.view (e.pollStream now allowNew) := by
  have hstreams := streams_pollStream e now allowNew
  have hview := (tends_refillPace e now).1
  generalize e.pollStream now allowNew = r at hstreams
  cases hstreams with
  | again hphase hs =>
    rename_i s
    have hresend : ((e.refillPace now).resend s now).view = e.view :=
      (view_resend _ s now).trans hview
    refine ⟨.of_eq hresend, fun cell hcell => ?_⟩
    cases hcell
    refine emits_encodeSeg _ ((congrArg View.phase hresend).trans hphase) ?_
    exact (congrArg (fun v => v.core.segs) (view_resend _ s now)).symm ▸ mem_map_of_mem hs
  | next hphase h hs =>
    obtain ⟨hmoves, hphase', -⟩ :=
      moves_createNextSegment h ((congrArg View.phase hview).trans hphase)
    rw [hview] at hmoves
    refine ⟨hmoves, fun cell hcell => ?_⟩
    cases hcell
    exact emits_encodeSeg _ hphase' (mem_map_of_mem hs)
  | ack hpace h =>
    rw [← (tends_of_pace hpace).1]
    exact polls_pollAck h
  | idle hpace => exact ⟨.of_eq (tends_of_pace hpace).1, nofun⟩

/-- **A poll moves the view and emits only what the views account for.** -/
theorem polls_pollTransmitInner (e : StreamEngine) (now : ℕ) (allowNew : Bool) :
    Polls e.view (e.pollTransmitInner now allowNew) := by
  have hone (e' : StreamEngine) (f : Frame) (hmoves : Moves none e.view e'.view)
      (hf : Emits e.view e'.view f) : Polls e.view (e', some f.encode) := by
    refine ⟨hmoves, fun cell hcell => ?_⟩
    cases hcell
    exact ⟨f, hf, rfl⟩
  rw [pollTransmitInner]
  split
  · exact hone _ _ (.refl _ _) (.rst _)
  · split
    · exact hone _ _ (.of_eq (tends_queueHandshake _ now).1) (.syn _)
    · split
      next hgreet =>
        refine hone _ _ ?_ (.synAck _ hgreet)
        rw [(tends_queueHandshake _ now).1]
        exact .single (.greeted e.view)
      · exact polls_pollStream
          { e with tx.bbr := e.tx.bbr.advanceBbrProbe now e.cfg } now allowNew

end StreamEngine

/-! ### Calls -/

/-- The frame a call brings in, if it brings one. -/
def Op.arrived : Op → Option Frame
  | .onCell cell _ => Frame.decode cell
  | _ => none

namespace Trace

variable (t : Trace)

/-- **Inversion of a call**: moves with the arriving frame, or bytes accepted, or
bytes handed out; and the cells it emits. -/
theorem step_cases (op : Op) :
    (Moves op.arrived t.engine.view (t.step op).engine.view ∧
        (t.step op).written = t.written ∧ (t.step op).delivered = t.delivered) ∨
      (∃ data, op = .write data ∧ t.engine.phase ≠ .closed ∧ t.engine.tx.finRequested = false ∧
        (t.step op).engine.view =
          { t.engine.view with core.pending := t.engine.view.core.pending ++ data } ∧
        (t.step op).written = t.written ++ data ∧ (t.step op).delivered = t.delivered) ∨
      (∃ n, Moves none { t.engine.view with rx := (t.engine.view.rx.takeRead n).1 }
          (t.step op).engine.view ∧
        (t.step op).written = t.written ∧
        (t.step op).delivered = t.delivered ++ t.engine.view.rx.readBuf.take n) := by
  cases op with
  | write data =>
    rw [step, write]
    split
    · exact .inl ⟨.refl _ _, append_nil _, rfl⟩
    next hopen =>
      obtain ⟨hphase, hfin⟩ := not_or.mp hopen
      exact .inr (.inl ⟨data, rfl, hphase, Bool.eq_false_iff.mpr hfin, rfl,
        congrArg _ take_length, rfl⟩)
  | finish => exact .inl ⟨.single (.finish _), rfl, rfl⟩
  | reset reason =>
    refine .inl ⟨?_, rfl, rfl⟩
    simp only [step, reset]
    split
    · exact .single (.close _ _)
    · exact .refl _ _
  | read len =>
    refine .inr (.inr ⟨min len t.engine.rx.readBuf.length, ?_, rfl, rfl⟩)
    rw [step, StreamEngine.read]
    dsimp only
    split
    next hnotify =>
      simp only [Bool.and_eq_true, decide_eq_true_eq] at hnotify
      exact .single (.owe none _ (.inl hnotify.1.1.1.2))
    · exact .refl _ _
  | pollEvent | trackHandoffs => exact .inl ⟨.refl _ _, rfl, rfl⟩
  | onCell cell now => exact .inl ⟨moves_onCell t.engine cell now, rfl, rfl⟩
  | pollTransmit now => exact .inl ⟨(polls_pollTransmitInner t.engine now true).1, rfl, rfl⟩
  | pollRepairTransmit now => exact .inl ⟨(polls_pollTransmitInner t.engine now false).1, rfl, rfl⟩
  | onTimeout now => exact .inl ⟨moves_onTimeout t.engine now, rfl, rfl⟩
  | localHandoff accepted now => exact .inl ⟨.of_eq (view_localHandoff _ accepted now), rfl, rfl⟩
  | discardReceivedCell cell => exact .inl ⟨.of_eq (view_discardReceivedCell _ cell), rfl, rfl⟩

/-- What a call adds to the emitted cells is what its view accounts for. -/
theorem step_emitted (op : Op) :
    (t.step op).emitted = t.emitted ∨
      ∃ f, Emits t.engine.view (t.step op).engine.view f ∧ op.arrived = none ∧
        (t.step op).written = t.written ∧ (t.step op).delivered = t.delivered ∧
        (t.step op).emitted = t.emitted ++ [f.encode] := by
  have hpoll (r : StreamEngine × Option (List UInt8)) (hr : StreamEngine.Polls t.engine.view r) :
      (t.polled r).emitted = t.emitted ∨
        ∃ f, Emits t.engine.view (t.polled r).engine.view f ∧ (none : Option Frame) = none ∧
          (t.polled r).written = t.written ∧ (t.polled r).delivered = t.delivered ∧
          (t.polled r).emitted = t.emitted ++ [f.encode] := by
    obtain ⟨e', _ | cell⟩ := r
    · exact .inl (append_nil _)
    · obtain ⟨f, hf, rfl⟩ := hr.2 cell rfl
      exact .inr ⟨f, hf, rfl, rfl, rfl, rfl⟩
  cases op with
  | pollTransmit now => exact hpoll _ (polls_pollTransmitInner t.engine now true)
  | pollRepairTransmit now => exact hpoll _ (polls_pollTransmitInner t.engine now false)
  | _ => exact .inl rfl

/-- What no call undoes; after the half-close nothing more is accepted. -/
theorem step_keeps (op : Op) :
    (t.step op).engine.streamId = t.engine.streamId ∧
      (t.engine.tx.finRequested = true →
        (t.step op).engine.tx.finRequested = true ∧ (t.step op).written = t.written) ∧
      (t.engine.tx.finAcked = true → (t.step op).engine.tx.finAcked = true) := by
  rcases step_cases t op with ⟨hmoves, hw, -⟩ | ⟨data, -, -, hopen, hv, -, -⟩ | ⟨n, hmoves, hw, -⟩
  · have hkeep := hmoves.keeps
    exact ⟨hkeep.1, fun h => ⟨hkeep.2.2.2.1 h, hw⟩, hkeep.2.2.2.2⟩
  · refine ⟨congrArg View.streamId hv, fun h => ?_, fun h => ?_⟩
    · rw [hopen] at h
      cases h
    · exact (congrArg (fun v => v.core.finAcked) hv).trans h
  · have hkeep := hmoves.keeps
    exact ⟨hkeep.1, fun h => ⟨hkeep.2.2.2.1 h, hw⟩, hkeep.2.2.2.2⟩

/-- **Invariant rule over moves**: what every move, every accepted write and every
read preserves holds along every run. -/
theorem step_invariant {P : View → List UInt8 → List UInt8 → Prop} {t : Trace} {op : Op}
    (hmove : ∀ f v v' w d, f = op.arrived ∨ f = none → Move f v v' → P v w d → P v' w d)
    (hwrite : ∀ v w d data, v.phase ≠ .closed → v.core.finRequested = false → P v w d →
      P { v with core.pending := v.core.pending ++ data } (w ++ data) d)
    (hread : ∀ v w d n, P v w d → P { v with rx := (v.rx.takeRead n).1 } w
      (d ++ v.rx.readBuf.take n))
    (h : P t.engine.view t.written t.delivered) :
    P (t.step op).engine.view (t.step op).written (t.step op).delivered := by
  rcases step_cases t op with ⟨hmoves, hw, hd⟩ | ⟨data, -, hphase, hfin, hv, hw, hd⟩ |
    ⟨n, hmoves, hw, hd⟩
  · rw [hw, hd]
    exact hmoves.keep (fun v v' hm => hmove _ v v' _ _ (.inl rfl) hm) h
  · rw [hv, hw, hd]
    exact hwrite _ _ _ data hphase hfin h
  · rw [hw, hd]
    exact hmoves.keep (fun v v' hm => hmove _ v v' _ _ (.inr rfl) hm) (hread _ _ _ n h)

end Trace

end VeilNetwork.OnionStream
