import VeilNetwork.OnionStream.Transitions

/-!
# What a call writes down

What the calls of an endpoint do to its notes: an acknowledgement drops the marks it
covers and credits the delivery model, a timeout may take the flight back, a poll marks
what it sends, and only DATA and FIN queue an end of stream.
-/

namespace VeilNetwork.OnionStream

open Saturating Queue List StreamEngine OnionStream.Core

namespace StreamEngine

variable {e : StreamEngine}

/-! ### Acknowledgements -/

section

variable (e : StreamEngine)

theorem notes_ackWindow (ack win : UInt32) (now : ℕ) :
    (e.ackWindow ack win now).notes = e.notes := by
  rw [ackWindow]
  split
  · split <;> split <;> rfl
  · rfl

variable (c : AckContext)

/-- The segments an acknowledgement covers leave, from the front. -/
theorem AckContext.fst_retireLoop (l : List Seg) (acc : AckEvidence) :
    (c.retireLoop l acc).1 = l.dropWhile fun s => Seq.leq s.stop c.ack := by
  induction l generalizing acc with
  | nil => rfl
  | cons s l ih =>
    rw [retireLoop, dropWhile_cons]
    split
    · exact ih _
    · rfl

theorem notes_ackAdvance (acc : AckEvidence) :
    (e.ackAdvance c acc).1.notes =
      { e.notes with marks := e.notes.marks.dropWhile fun m => Seq.leq m.body.stop c.ack } := by
  have htrim (tx : TxState) : (tx.trimRewoundPendingAfterAck c.ack).segs = tx.segs ∧
      (tx.trimRewoundPendingAfterAck c.ack).bbr = tx.bbr := by
    rw [TxState.trimRewoundPendingAfterAck]
    repeat' split
    all_goals exact ⟨rfl, rfl⟩
  rw [ackAdvance]
  simp only [notes, (htrim _).1, (htrim _).2, AckContext.fst_retireLoop, dropWhile_map]
  rfl

theorem notes_ackCumulative (acc : AckEvidence) :
    (e.ackCumulative c acc).1.notes =
      { e.notes with marks := e.notes.marks.dropWhile fun m => Seq.leq m.body.stop c.ack } := by
  rw [← notes_ackAdvance e c acc, ackCumulative]
  rw [(tends_ackTiming _ _ _).2]
  split <;> exact (tends_ackGrowth _ _ _).2

theorem delivered_bbrOnRtt (b : Bbr) (rtt : UInt32) (sentMs now : ℕ) (flight : UInt32)
    (cfg : Config) : (b.bbrOnRtt rtt sentMs now flight cfg).delivered = b.delivered := by
  have hmeasure (b : Bbr) (probe : RttProbe) :
      (b.measureProbe probe rtt sentMs now flight cfg).delivered = b.delivered :=
    delivered_advanceBbrProbe _ _ _
  rw [← delivered_advanceBbrProbe b now cfg, Bbr.bbrOnRtt]
  split
  · exact hmeasure _ _
  · split
    · rfl
    · split
      · rfl
      · split
        · rfl
        · split
          · rfl
          · exact hmeasure _ _

theorem delivered_bbrOnDelivered (b : Bbr) (acked : UInt32) (now : ℕ) (backlogged : Bool)
    (mss : UInt32) (srtt : Option UInt32) :
    (b.bbrOnDelivered acked now backlogged mss srtt).delivered = add64 b.delivered acked.toNat := by
  have hplateau (b : Bbr) : (b.checkPlateau now srtt).delivered = b.delivered := by
    simp only [Bbr.checkPlateau, apply_ite Bbr.delivered, ite_self]
  have hrecord (b : Bbr) (sample : ℕ) (full : Bool) :
      (b.recordBandwidth sample now full srtt).delivered = b.delivered := by
    simp only [Bbr.recordBandwidth, apply_ite Bbr.delivered, hplateau, ite_self]
  rw [Bbr.bbrOnDelivered]
  split
  · simp only [apply_ite Bbr.delivered, hrecord, ite_self]
  · rfl

/-- The delivery model is credited with what one acknowledgement reports. -/
def credit (delivered : UInt32) : ℕ :=
  if e.cfg.bbr = true ∧ 0 < delivered then add64 e.notes.credited delivered.toNat
  else e.notes.credited

theorem notes_ackFinish (ack : UInt32) (sacks : SackVec) (acc : AckEvidence) (now : ℕ) :
    (e.ackFinish ack sacks acc now).notes =
      { e.notes with credited := e.credit acc.newlyDelivered } := by
  rw [ackFinish, (tends_ackTimers _ now).2, (tends_ackRack _ ack sacks acc now).2, ackRates, credit]
  have hrtt : (acc.rttSentMs.elim e.tx.bbr fun sentMs =>
      e.tx.bbr.bbrOnRtt (cut32 (now - sentMs)) sentMs now e.tx.flight e.cfg).delivered =
      e.tx.bbr.delivered := by
    cases acc.rttSentMs with
    | none => rfl
    | some => exact delivered_bbrOnRtt ..
  split
  next hbbr =>
    split
    next hnew => simp only [notes, hbbr, hnew, delivered_bbrOnDelivered, hrtt, and_self, if_true]
    next hnew => simp only [notes, hnew, hrtt, and_false, if_false]
  next hbbr => rw [if_neg fun h => hbbr h.1]

end

/-- What an accepted acknowledgement does to the flight: its ranges are noted, then it
advances the cumulative point or not, and the delivery model is credited. -/
structure Acks (ack : UInt32) (sacks : SackVec) (e e' : StreamEngine) : Prop where
  exists_stages : ∃ (e₂ : StreamEngine) (c : AckContext) (acc : AckEvidence), c.ack = ack ∧
    c.oldUna = e.tx.sndUna ∧ acc.newlyDelivered = 0 ∧ acc.sackedOverlap = 0 ∧
    e₂.tx.core = e.tx.core ∧
    e₂.notes.marks = (c.sackRanges sacks.ranges e.tx.segs acc).1.map Seg.mark ∧
    (Seq.gt ack e.tx.sndUna = true ∧ e'.tx.core = e.tx.core.advance ack ∧
        e'.notes = { e.notes with
          marks := e₂.notes.marks.dropWhile fun m => Seq.leq m.body.stop ack
          credited := e.credit
            (e₂.ackCumulative c (c.sackRanges sacks.ranges e.tx.segs acc).2).2.newlyDelivered } ∨
      Seq.gt ack e.tx.sndUna = false ∧ e'.tx.core = e.tx.core ∧
        e'.notes = { e.notes with
          marks := e₂.notes.marks
          credited := e.credit (c.sackRanges sacks.ranges e.tx.segs acc).2.newlyDelivered })

variable {e' : StreamEngine}

theorem credit_congr (hcfg : e'.cfg = e.cfg)
    (hcredited : e'.notes.credited = e.notes.credited) (n : UInt32) : e'.credit n = e.credit n := by
  simp only [credit, hcfg, hcredited]

variable {e₂ : StreamEngine}

theorem acks_stages {c : AckContext} {acc : AckEvidence} {ack : UInt32}
    {sacks : SackVec} {r : List Seg × AckEvidence}
    (hr : c.sackRanges sacks.ranges e.tx.segs acc = r) (hc : c.ack = ack)
    (hold : c.oldUna = e.tx.sndUna) (hnew : acc.newlyDelivered = 0) (hover : acc.sackedOverlap = 0)
    (hcore : e₂.tx.core = e.tx.core) (hcfg : e₂.cfg = e.cfg)
    (hnotes : e₂.notes = { e.notes with marks := r.1.map Seg.mark }) (refused changed : Bool)
    (now : ℕ) {next : StreamEngine × AckEvidence}
    (hnext : next = if Seq.gt ack e₂.tx.sndUna then e₂.ackCumulative c r.2
      else if e₂.isDuplicateAck ack refused changed r.2.newlyDelivered then (e₂.ackDuplicate, r.2)
      else (e₂, r.2)) :
    Acks ack sacks e (next.1.ackFinish ack sacks next.2 now) := by
  have huna : e₂.tx.sndUna = e.tx.sndUna := congrArg sndUna hcore
  have hcredited : e₂.notes.credited = e.notes.credited := by rw [hnotes]
  have hfinish (e₃ : StreamEngine) (acc₃ : AckEvidence) :
      (e₃.ackFinish ack sacks acc₃ now).tx.core = e₃.tx.core :=
    congrArg View.core (view_ackFinish e₃ ack sacks acc₃ now)
  refine ⟨e₂, c, acc, hc, hold, hnew, hover, hcore, by rw [hr, hnotes], ?_⟩
  rw [hr, hfinish, notes_ackFinish]
  rw [huna] at hnext
  cases hgt : Seq.gt ack e.tx.sndUna with
  | true =>
    rw [hgt, if_pos rfl] at hnext
    subst hnext
    have hview := view_ackCumulative e₂ c r.2
    have hmarks := notes_ackCumulative e₂ c r.2
    refine .inl ⟨rfl, ?_, ?_⟩
    · rw [show (e₂.ackCumulative c r.2).1.tx.core = e₂.tx.core.advance c.ack from
        congrArg View.core hview, hcore, hc]
    · rw [credit_congr ((congrArg View.cfg hview).trans hcfg)
        (by rw [hmarks, hcredited]), hmarks, hnotes, hc]
  | false =>
    rw [hgt, if_neg Bool.false_ne_true] at hnext
    have hsame : next.1.tx.core = e₂.tx.core ∧ next.1.notes = e₂.notes ∧ next.1.cfg = e₂.cfg ∧
        next.2 = r.2 := by
      rw [hnext]
      split
      · obtain ⟨hview, hsame⟩ := tends_ackDuplicate e₂
        exact ⟨congrArg View.core hview, hsame, congrArg View.cfg hview, rfl⟩
      · exact ⟨rfl, rfl, rfl, rfl⟩
    obtain ⟨h₁, h₂, h₃, h₄⟩ := hsame
    refine .inr ⟨rfl, h₁.trans hcore, ?_⟩
    rw [credit_congr (h₃.trans hcfg) ((congrArg Notes.credited h₂).trans hcredited), h₂, h₄, hnotes]

theorem acks_ackAccepted (e : StreamEngine) (ack win : UInt32) (sacks : SackVec) (now : ℕ) :
    Acks ack sacks e (e.ackAccepted ack win sacks now) := by
  have hnotes := notes_ackWindow e ack win now
  have hwindow : (e.ackWindow ack win now).tx.core = e.tx.core ∧
      (e.ackWindow ack win now).cfg = e.cfg ∧ (e.ackWindow ack win now).tx.segs = e.tx.segs := by
    rw [ackWindow]
    repeat' split
    all_goals exact ⟨rfl, rfl, rfl⟩
  rw [ackAccepted]
  generalize e.ackWindow ack win now = e₁ at hnotes hwindow
  obtain ⟨hcore, hcfg, hsegs⟩ := hwindow
  rw [hsegs]
  generalize hr : AckContext.sackRanges _ sacks.ranges e.tx.segs _ = r
  -- the probe is judged after the ranges and touches neither bytes nor notes
  have hview : ∀ reopened refused, (ackProbe
      { e₁ with tx := { e₁.tx with segs := r.1, rack := r.2.rack } } ack reopened refused
      now).view = e₁.view := fun reopened refused => by
    rw [(tends_ackProbe _ _ _ _ _).1, ← hr, ← hsegs]
    exact core_sackRanges e₁ _ _ _ _
  refine acks_stages hr rfl (congrArg sndUna hcore) rfl rfl
    ((congrArg View.core (hview _ _)).trans hcore) ((congrArg View.cfg (hview _ _)).trans hcfg)
    ?_ _ _ now rfl
  rw [(tends_ackProbe _ _ _ _ _).2, ← hnotes]
  rfl

/-- **An acknowledgement** is ignored, or goes through its stages. -/
theorem acks_onAck (e : StreamEngine) (ack win : UInt32) (sacks : SackVec) (now : ℕ) :
    (e.onAck ack win sacks now).tx.core = e.tx.core ∧
        (e.onAck ack win sacks now).notes = e.notes ∨
      e.phase ≠ .synSent ∧ e.phase ≠ .closed ∧ Seq.gt ack e.tx.ackLimit = false ∧
        Acks ack sacks e (e.onAck ack win sacks now) := by
  have hnotes := (tends_notePeerProgress e).2
  have hsame : e.notePeerProgress.tx = e.tx ∧ e.notePeerProgress.cfg = e.cfg ∧
      e.notePeerProgress.phase = e.phase := by
    rw [notePeerProgress]
    split <;> exact ⟨rfl, rfl, rfl⟩
  rw [onAck]
  generalize e.notePeerProgress = e₁ at hnotes hsame
  obtain ⟨htx, hcfg, hphase⟩ := hsame
  have hcore : e₁.tx.core = e.tx.core := congrArg TxState.core htx
  split
  · exact .inl ⟨hcore, hnotes⟩
  next hopen =>
    rw [hphase, not_or] at hopen
    split
    · exact .inl ⟨hcore, hnotes⟩
    next hlimit =>
      refine .inr ⟨hopen.1, hopen.2, htx ▸ Bool.eq_false_iff.mpr hlimit, ?_⟩
      obtain ⟨e₂, c, acc, hstages⟩ := (acks_ackAccepted e₁ ack win sacks now).exists_stages
      simp only [htx, hnotes, credit_congr hcfg (congrArg Notes.credited hnotes)] at hstages
      exact ⟨e₂, c, acc, hstages⟩

/-! ### Timers -/

theorem notes_persistTimer (e : StreamEngine) (now : ℕ) : (e.persistTimer now).notes = e.notes := by
  rw [persistTimer]
  split
  · split <;> rfl
  · rfl

/-- What a timer does to the flight: nothing but events, or the whole flight, of which
nothing was reported and nothing waits locally, goes back to the queue. -/
def Expires (e e' : StreamEngine) : Prop :=
  ∃ new, Event.peerFinished ∉ new ∧
    (e'.tx.core = e.tx.core ∧ e'.notes = { e.notes with events := e.events ++ new } ∨
      (e.tx.segs ≠ [] ∧ ∀ s ∈ e.tx.segs, s.sacked = false ∧ s.localPending = false) ∧
        e'.tx.core = e.tx.core.rewound ∧
        e'.notes = { e.notes with events := e.events ++ new, marks := [] })

theorem Tends.expires (h : Tends e e') : Expires e e' :=
  ⟨[], not_mem_nil, .inl ⟨congrArg View.core h.1, by rw [h.2, append_nil]; rfl⟩⟩

/-- What comes before the data timer leaves the flight alone. -/
theorem Expires.after {e₁ : StreamEngine} {before : List Event} (h : Expires e₁ e₂)
    (hbefore : Event.peerFinished ∉ before) (hcore : e₁.tx.core = e.tx.core)
    (hnotes : e₁.notes = { e.notes with events := e.events ++ before }) : Expires e e₂ := by
  obtain ⟨new, hnew, h⟩ := h
  have hevents : e₁.events = e.events ++ before := congrArg Notes.events hnotes
  refine ⟨before ++ new, fun hmem => (mem_append.mp hmem).elim hbefore hnew, ?_⟩
  rw [← append_assoc, ← hevents]
  rcases h with ⟨hc, hn⟩ | ⟨hsegs, hc, hn⟩
  · exact .inl ⟨hc.trans hcore, by rw [hn, hnotes]⟩
  · have hmarks : e₁.tx.segs.map Seg.mark = e.tx.segs.map Seg.mark := congrArg Notes.marks hnotes
    refine .inr ⟨⟨fun hnil => ?_, fun s hs => ?_⟩, by rw [hc, hcore], by rw [hn, hnotes]⟩
    · rw [hnil] at hmarks
      exact hsegs.1 (map_eq_nil_iff.mp hmarks)
    have hs' : s.mark ∈ e₁.tx.segs.map Seg.mark := hmarks ▸ mem_map_of_mem hs
    obtain ⟨s₁, hs₁, heq⟩ := mem_map.mp hs'
    exact ⟨(congrArg Mark.sacked heq).symm.trans (hsegs.2 s₁ hs₁).1,
      (congrArg Mark.localPending heq).symm.trans (hsegs.2 s₁ hs₁).2⟩

theorem Expires.of_tends {e₁ : StreamEngine} (h : Tends e e₁) (h' : Expires e₁ e₂) :
    Expires e e₂ :=
  h'.after not_mem_nil (congrArg View.core h.1) (by rw [h.2, append_nil]; rfl)

section

variable (e : StreamEngine)

theorem expires_declareDead : Expires e e.declareDead :=
  ⟨[.reset ResetReason.timedOut], by simp, .inl ⟨rfl, rfl⟩⟩

theorem expires_handshakeTimer (now : ℕ) :
    ∃ new, Event.peerFinished ∉ new ∧ (e.handshakeTimer now).1.tx.core = e.tx.core ∧
      (e.handshakeTimer now).1.notes = { e.notes with events := e.events ++ new } := by
  rw [handshakeTimer]
  split
  · dsimp only
    split
    · exact ⟨[.reset ResetReason.timedOut], by simp, rfl, rfl⟩
    · exact ⟨[.handshakeRto (e.hsRetries + 1)], by simp, rfl, rfl⟩
  · exact ⟨[], not_mem_nil, rfl, by rw [append_nil]; rfl⟩

theorem expires_rtoRepair (ssthresh : UInt32) (rewind : Bool) (expired now : ℕ)
    (hrewind : rewind = true → e.tx.segs ≠ [] ∧
      ∀ s ∈ e.tx.segs, s.sacked = false ∧ s.localPending = false) :
    Expires e (e.rtoRepair ssthresh rewind expired now) := by
  rw [rtoRepair]
  split
  next h =>
    refine ⟨[], not_mem_nil, .inr ⟨hrewind h, ?_, by rw [append_nil]; rfl⟩⟩
    simp only [TxState.core, rewound, requeued, flatMap_map, any_map]
    rfl
  · split
    · exact (tends_markExpiredSackRepairs e now expired).expires
    · exact (tends_markOldestUnsackedForRto e).expires

theorem expires_dataTimer (now : ℕ) : Expires e (e.dataTimer now).1 := by
  have hsync {e₁ e₂ : StreamEngine} (h : Expires e₁ e₂) : Expires e₁ (e₂.syncLocalRto now) := by
    obtain ⟨hview, hnotes⟩ := tends_syncLocalRto e₂ now
    have hcore : (e₂.syncLocalRto now).tx.core = e₂.tx.core := congrArg View.core hview
    simpa only [Expires, hcore, hnotes] using h
  have hflight (e : StreamEngine) (h : e.noSackRewind = true) :
      e.tx.segs ≠ [] ∧ ∀ s ∈ e.tx.segs, s.sacked = false ∧ s.localPending = false := by
    simp only [noSackRewind, Bool.and_eq_true, all_eq_true, Bool.not_eq_true'] at h
    refine ⟨fun hnil => ?_, fun s hs => ⟨h.1.1.2 s hs, h.1.2 s hs⟩⟩
    rw [hnil] at h
    cases h.2
  have hafter {e₁ e₂ : StreamEngine} (ev : Event) (hev : Event.peerFinished ≠ ev)
      (hcore : e₁.tx.core = e.tx.core)
      (hnotes : e₁.notes = { e.notes with events := e.events ++ [ev] }) (h : Expires e₁ e₂) :
      Expires e e₂ := h.after (mt mem_singleton.mp hev) hcore hnotes
  rw [dataTimer]
  split
  · exact Tends.expires ⟨rfl, rfl⟩
  · split
    · exact Tends.expires ⟨rfl, rfl⟩
    · split
      · exact (tends_with_segs e
          (map_updateFirst (g := Seg.mark) (by intro s _; rfl) _)).expires
      · rw [dataRto]
        split
        · exact expires_declareDead _
        · refine hsync (hafter ?event ?hev ?hcore ?hnotes (expires_rtoRepair _ _ _ _ _ ?hflight))
          case hnotes => rfl
          case hev => exact Event.noConfusion
          case hcore => rfl
          case hflight => exact hflight { e with tx.rto.consecRto := e.tx.rto.consecRto + 1 }

/-- **A timeout** queues events, and may take the whole flight back. -/
theorem expires_onTimeout (now : ℕ) : Expires e (e.onTimeout now) := by
  rw [onTimeout]
  split
  · exact Tends.expires ⟨rfl, rfl⟩
  · refine .of_tends (tends_advanceBbrProbe e now) ?_
    generalize ({ e with tx.bbr := e.tx.bbr.advanceBbrProbe now e.cfg } : StreamEngine) = e₀
    dsimp only
    split
    · exact expires_declareDead _
    · refine .of_tends (tends_ackTimer e₀ now) ?_
      obtain ⟨new, hnew, hcore, hnotes⟩ := expires_handshakeTimer (e₀.ackTimer now) now
      generalize ((e₀.ackTimer now).handshakeTimer now).1 = e₁ at hcore hnotes
      refine .after ?_ hnew hcore hnotes
      split
      · exact Tends.expires ⟨rfl, rfl⟩
      · refine .of_tends
          ((tends_rackTimer e₁ now).trans (tends_markDueSackRepairs _ now)) ?_
        have hdata := expires_dataTimer { e₁.rackTimer now with
          tx := (e₁.rackTimer now).tx.markDueSackRepairs now } now
        split
        · exact hdata
        · have hcore₃ (e₃ : StreamEngine) : (e₃.persistTimer now).tx.core = e₃.tx.core := by
            rw [persistTimer]
            split
            · split <;> rfl
            · rfl
          simpa only [Expires, hcore₃, notes_persistTimer] using hdata

end

/-! ### Sending -/

/-- The note of a segment just cut off the queue: below the ceiling of a rewound flight
it has left before. -/
def fresh (e : StreamEngine) (b : Body) : Mark where
  body := b
  sacked := false
  localPending := e.trackLocalHandoffs
  handedOff := !e.trackLocalHandoffs || e.tx.rewindHigh.elim false (Seq.leq b.stop)

/-- What a poll does to the flight: nothing but an acknowledgement, or one segment goes
out again, or a new one follows. -/
inductive Sends (e e' : StreamEngine) : Prop
  | none (duplicate : Option SackRange)
      (hduplicate : duplicate = e.duplicateRange ∨ duplicate = Option.none)
      (hcore : e'.tx.core = e.tx.core)
      (hnotes : e'.notes = { e.notes with duplicate := duplicate })
  | again (l₁ : List Mark) (m : Mark) (l₂ : List Mark) (hmarks : e.notes.marks = l₁ ++ m :: l₂)
      (hcore : e'.tx.core = e.tx.core)
      (hnotes : e'.notes = { e.notes with
        marks := l₁ ++ { m with localPending := e.trackLocalHandoffs } :: l₂ })
  | data (n : ℕ) (hcore : e'.tx.core = e.tx.core.sendData n)
      (hnotes : e'.notes = { e.notes with
        marks := e.notes.marks ++ [e.fresh ⟨e.tx.sndNxt, e.tx.pending.take n, false⟩] })
  | fin (hcore : e'.tx.core = e.tx.core.sendFin)
      (hnotes : e'.notes = { e.notes with
        marks := e.notes.marks ++ [e.fresh ⟨e.tx.sndNxt, [], true⟩] })

theorem Tends.sends (h : Tends e e') : Sends e e' :=
  .none _ (.inl rfl) (congrArg View.core h.1) h.2

theorem sends_resend (e : StreamEngine) (s : Seg) (now : ℕ) : Sends e (e.resend s now) := by
  have hcore : (e.resend s now).tx.core = e.tx.core := congrArg View.core (view_resend e s now)
  have hnotes : (e.resend s now).notes = { e.notes with
      marks := (updateFirst wantsResend (e.resent now) e.tx.segs).map Seg.mark } :=
    (tends_resend e s now).2
  rcases updateFirst_cases wantsResend (e.resent now) e.tx.segs with h | ⟨l₁, r, l₂, hl, h⟩
  · exact .none _ (.inl rfl) hcore (hnotes.trans (by rw [h]; rfl))
  · refine .again (l₁.map Seg.mark) r.mark (l₂.map Seg.mark) ?_ hcore (hnotes.trans ?_)
    · simp only [notes, hl, map_append, map_cons]
    · rw [h, map_append]
      rfl

theorem sends_createNextSegment {now : ℕ} (h : e.createNextSegment now = some e') : Sends e e' := by
  rw [createNextSegment] at h
  split at h
  · cases h
  · split at h
    · dsimp only at h
      split at h
      · cases h
      · cases h
        refine .data _ (congrArg View.core (view_pushData e _ now))
          ((tends_armRto _ now).2.trans ?_)
        simp only [notes, map_append]
        rfl
    · split at h
      · cases h
        refine .fin (congrArg View.core (view_pushFin e now)) ((tends_armRto _ now).2.trans ?_)
        simp only [notes, map_append]
        rfl
      · cases h

/-- Only the bytes and the notes of an endpoint matter to what a poll does to them. -/
theorem Sends.congr {e₁ e₁' e₂' : StreamEngine} (h : Sends e₁ e₂) (hstart : Tends e₁' e₁)
    (hend : Tends e₂ e₂') : Sends e₁' e₂' := by
  obtain ⟨hview, hnotes⟩ := hstart
  obtain ⟨hview', hnotes'⟩ := hend
  have hcore : e₁.tx.core = e₁'.tx.core := congrArg View.core hview
  have hcore' : e₂'.tx.core = e₂.tx.core := congrArg View.core hview'
  have hnxt : e₁.tx.sndNxt = e₁'.tx.sndNxt := congrArg sndNxt hcore
  have hpending : e₁.tx.pending = e₁'.tx.pending := congrArg pending hcore
  have hhigh : e₁.tx.rewindHigh = e₁'.tx.rewindHigh := congrArg rewindHigh hcore
  have htracked : e₁.trackLocalHandoffs = e₁'.trackLocalHandoffs := congrArg Notes.tracked hnotes
  have hdup : e₁.duplicateRange = e₁'.duplicateRange := congrArg Notes.duplicate hnotes
  have hfresh (b : Body) : e₁.fresh b = e₁'.fresh b := by simp only [fresh, hhigh, htracked]
  cases h with
  | none duplicate hd hc hn =>
    rw [hdup] at hd
    rw [hnotes] at hn
    exact .none duplicate hd (hcore'.trans (hc.trans hcore)) (hnotes'.trans hn)
  | again l₁ m l₂ hmarks hc hn =>
    rw [hnotes, htracked] at hn
    exact .again l₁ m l₂ (hnotes ▸ hmarks) (hcore'.trans (hc.trans hcore)) (hnotes'.trans hn)
  | data n hc hn =>
    rw [hnotes, hfresh, hnxt, hpending] at hn
    exact .data n (hcore'.trans (hcore ▸ hc)) (hnotes'.trans hn)
  | fin hc hn =>
    rw [hnotes, hfresh, hnxt] at hn
    exact .fin (hcore'.trans (hcore ▸ hc)) (hnotes'.trans hn)

theorem sends_pollAck {cell : List UInt8} (h : e.pollAck = some (e', cell)) : Sends e e' := by
  rw [pollAck] at h
  split at h
  · cases h
  · cases h
    exact .none Option.none (.inr rfl) rfl rfl

theorem sends_pollStream (e : StreamEngine) (now : ℕ) (allowNew : Bool) :
    Sends e (e.pollStream now allowNew).1 := by
  have hstreams := streams_pollStream e now allowNew
  have hrefill := tends_refillPace e now
  generalize e.pollStream now allowNew = r at hstreams
  cases hstreams with
  | again hphase hs => exact (sends_resend _ _ now).congr hrefill ⟨rfl, rfl⟩
  | next hphase h hs => exact (sends_createNextSegment h).congr hrefill ⟨rfl, rfl⟩
  | ack hpace h => exact (sends_pollAck h).congr (tends_of_pace hpace) ⟨rfl, rfl⟩
  | idle hpace =>
    have hsame := tends_of_pace hpace
    refine Tends.sends ?_
    exact hsame

/-- **A poll** sends at most one segment. -/
theorem sends_pollTransmitInner (e : StreamEngine) (now : ℕ) (allowNew : Bool) :
    Sends e (e.pollTransmitInner now allowNew).1 := by
  have hprobe := tends_advanceBbrProbe e now
  rw [pollTransmitInner]
  generalize ({ e with tx.bbr := e.tx.bbr.advanceBbrProbe now e.cfg } : StreamEngine) = e₀
    at hprobe
  split
  · refine Tends.sends ?_
    exact hprobe
  · split
    · refine Tends.sends (hprobe.trans ?_)
      exact tends_queueHandshake { e₀ with sendSyn := false } now
    · split
      · obtain ⟨hview, hnotes⟩ := tends_queueHandshake { e₀ with sendSynack := false } now
        exact .none _ (.inl rfl)
          ((congrArg View.core hview).trans (congrArg View.core hprobe.1)) (hnotes.trans hprobe.2)
      · exact (sends_pollStream e₀ now allowNew).congr hprobe ⟨rfl, rfl⟩

/-! ### Handoffs -/

theorem notes_localHandoff (e : StreamEngine) (accepted : List LocalTransmit) (now : ℕ) :
    (e.localHandoff accepted now).notes = { e.notes with
      marks := (e.tx.segs.map (handOffSeg accepted now)).map Seg.mark } := by
  obtain ⟨hview, hnotes⟩ := tends_handOffHandshake e accepted now
  have hsegs : (e.handOffHandshake accepted now).tx.segs = e.tx.segs := by
    rw [handOffHandshake]
    split <;> split <;> rfl
  rw [localHandoff]
  split
  next hnone =>
    have hseg (s : Seg) : handOffSeg accepted now s = s := by
      rw [handOffSeg, isEmpty_iff.mp hnone, if_neg (by simp)]
    rw [map_congr_left fun s _ => hseg s, map_id']
    rfl
  · rw [(tends_handOffSegs _ accepted now).2, ← hnotes, ← hsegs]
    rfl

/-! ### Every call -/

/-- No end of stream is queued, and nothing new is to be reported to the peer. -/
def Quiet (e e' : StreamEngine) : Prop :=
  ∃ new, Event.peerFinished ∉ new ∧ e'.events = e.events ++ new ∧
    (e'.duplicateRange = e.duplicateRange ∨ e'.duplicateRange = Option.none) ∧
    e'.recentSackSeq = e.recentSackSeq

theorem Quiet.of_notes {marks : List Mark} {credited : ℕ} {tracked : Bool}
    {new : List Event} {duplicate : Option SackRange} (hnew : Event.peerFinished ∉ new)
    (hduplicate : duplicate = e.duplicateRange ∨ duplicate = Option.none)
    (h : e'.notes =
      ⟨marks, credited, tracked, e.events ++ new, duplicate, e.recentSackSeq⟩) : Quiet e e' := by
  have hdup : e'.duplicateRange = duplicate := congrArg Notes.duplicate h
  exact ⟨new, hnew, congrArg Notes.events h, hdup ▸ hduplicate, congrArg Notes.recent h⟩

theorem Quiet.of_same {marks : List Mark} {credited : ℕ} {tracked : Bool}
    (h : e'.notes =
      ⟨marks, credited, tracked, e.events, e.duplicateRange, e.recentSackSeq⟩) : Quiet e e' :=
  of_notes not_mem_nil (.inl rfl) (h.trans (by rw [append_nil]))

theorem Sends.quiet (h : Sends e e') : Quiet e e' := by
  cases h with
  | none duplicate hduplicate hcore hnotes =>
    exact .of_notes not_mem_nil hduplicate (hnotes.trans (by rw [append_nil]; rfl))
  | again l₁ m l₂ hmarks hcore hnotes | data n hcore hnotes | fin hcore hnotes =>
    exact .of_same hnotes

theorem Expires.quiet (h : Expires e e') : Quiet e e' := by
  obtain ⟨new, hnew, ⟨-, h⟩ | ⟨-, -, h⟩⟩ := h
  · exact .of_notes hnew (.inl rfl) h
  · exact .of_notes hnew (.inl rfl) h

variable (e : StreamEngine)

theorem quiet_onAck (ack win : UInt32) (sacks : SackVec) (now : ℕ) :
    Quiet e (e.onAck ack win sacks now) := by
  rcases acks_onAck e ack win sacks now with ⟨-, h⟩ | ⟨-, -, -, h⟩
  · exact .of_same h
  · obtain ⟨e₂, c, acc, -, -, -, -, -, -, ⟨-, -, h⟩ | ⟨-, -, h⟩⟩ := h.exists_stages
    · exact .of_same h
    · exact .of_same h

theorem quiet_onSyn (isn win : UInt32) (now : ℕ) : Quiet e (e.onSyn isn win now) := by
  rw [onSyn]
  split
  · exact .of_notes (by simp) (.inl rfl) rfl
  · exact .of_same rfl
  · exact .of_same rfl

theorem quiet_onSynack (isn win ack : UInt32) : Quiet e (e.onSynack isn win ack) := by
  rw [onSynack]
  split
  · split
    · exact .of_same rfl
    · exact .of_notes (by simp) (.inl rfl) rfl
  · split <;> exact .of_same rfl

theorem quiet_onRst (reason : UInt8) : Quiet e (e.onRst reason) := by
  rw [onRst]
  split
  · exact .of_notes (by simp) (.inl rfl) rfl
  · exact .of_same rfl

end StreamEngine

/-- Whether a call brings DATA or a FIN of this stream. -/
def Op.Bears (op : Op) (streamId : UInt32) : Prop :=
  (∃ seq win payload, op.arrived = some (.data streamId seq win payload)) ∨
    ∃ seq, op.arrived = some (.fin streamId seq)

open StreamEngine in
/-- **What a call writes down**: a DATA cell and a FIN cell do what their handlers do, a
polled event leaves, and any other call queues no end of stream and reports nothing new. -/
theorem Trace.step_notes (t : Trace) (op : Op) :
    (∃ seq win payload now, op.arrived = some (.data t.engine.streamId seq win payload) ∧
        t.step op = { t with engine := t.engine.onData seq win payload now }) ∨
      (∃ seq, op.arrived = some (.fin t.engine.streamId seq) ∧
        t.step op = { t with engine := t.engine.onPeerFin seq }) ∨
      op = .pollEvent ∨ ¬op.Bears t.engine.streamId ∧ t.engine.Quiet (t.step op).engine := by
  have hother (h : op.arrived = none) (hquiet : t.engine.Quiet (t.step op).engine) :
      ¬op.Bears t.engine.streamId ∧ t.engine.Quiet (t.step op).engine :=
    ⟨by simp [Op.Bears, h], hquiet⟩
  rw [← or_assoc, ← or_assoc]
  cases op with
  | pollEvent => exact .inl (.inr rfl)
  | onCell cell now =>
    simp only [Op.Bears, Op.arrived, step, onCell]
    cases Frame.decode cell with
    | none => exact .inr ⟨by simp, Quiet.of_same rfl⟩
    | some frame =>
      by_cases hid : frame.streamId = t.engine.streamId
      · simp only [hid, ne_eq]
        cases frame with
        | syn i isn win => exact .inr ⟨by simp, quiet_onSyn _ _ _ _⟩
        | synAck i isn win ack => exact .inr ⟨by simp, quiet_onSynack _ _ _ _⟩
        | data i seq win payload =>
          obtain rfl : i = t.engine.streamId := hid
          exact .inl (.inl (.inl ⟨seq, win, payload, now, rfl, rfl⟩))
        | ack i ack win sacks => exact .inr ⟨by simp, quiet_onAck _ _ _ _ _⟩
        | fin i seq =>
          obtain rfl : i = t.engine.streamId := hid
          exact .inl (.inl (.inr ⟨seq, rfl, rfl⟩))
        | rst i reason => exact .inr ⟨by simp, quiet_onRst _ _⟩
      · simp only [hid, ne_eq]
        refine .inr ⟨?_, Quiet.of_same rfl⟩
        rintro (⟨seq, win, payload, h⟩ | ⟨seq, h⟩)
        · exact hid (congrArg Frame.streamId (Option.some.inj h))
        · exact hid (congrArg Frame.streamId (Option.some.inj h))
  | write data =>
    refine .inr (hother rfl ?_)
    rw [step, write]
    split <;> exact .of_same rfl
  | finish | trackHandoffs => exact .inr (hother rfl (.of_same rfl))
  | reset reason =>
    refine .inr (hother rfl ?_)
    rw [step, reset]
    split <;> exact .of_same rfl
  | read len =>
    refine .inr (hother rfl ?_)
    rw [step, StreamEngine.read]
    dsimp only
    split <;> exact .of_same rfl
  | pollTransmit now => exact .inr (hother rfl (t.engine.sends_pollTransmitInner now true).quiet)
  | pollRepairTransmit now =>
    exact .inr (hother rfl (t.engine.sends_pollTransmitInner now false).quiet)
  | onTimeout now => exact .inr (hother rfl (t.engine.expires_onTimeout now).quiet)
  | localHandoff accepted now =>
    exact .inr (hother rfl (.of_same (t.engine.notes_localHandoff accepted now)))
  | discardReceivedCell cell =>
    refine .inr (hother rfl ?_)
    rw [step, discardReceivedCell]
    dsimp only
    repeat' split
    all_goals exact .of_same rfl

/-- What the notes say of the flight. -/
def Notes.flight (n : Notes) : List Mark × ℕ × Bool := (n.marks, n.credited, n.tracked)

open StreamEngine in
/-- What a call does to the flight. -/
inductive Flight (op : Op) (e e' : StreamEngine) : Prop
  | same (hcore : e'.tx.core = e.tx.core) (hnotes : e'.notes.flight = e.notes.flight)
  | finish (hcore : e'.tx.core = { e.tx.core with finRequested := true })
      (hnotes : e'.notes.flight = e.notes.flight)
  | opened (hphase : e.phase = .synSent) (una nxt : UInt32)
      (hcore : e'.tx.core = { e.tx.core with sndUna := una, sndNxt := nxt })
      (hnotes : e'.notes.flight = e.notes.flight)
  | acks (ack win : UInt32) (sacks : SackVec)
      (harrived : op.arrived = some (.ack e.streamId ack win sacks)) (hopen : e.phase ≠ .synSent)
      (hphase : e.phase ≠ .closed) (hlimit : Seq.gt ack e.tx.ackLimit = false)
      (h : Acks ack sacks e e')
  | expires (h : Expires e e')
  | sends (h : Sends e e')
  | track (hcore : e'.tx.core = e.tx.core)
      (hnotes : e'.notes.flight = (e.notes.marks, e.notes.credited, true))
  | handoff (accepted : List LocalTransmit) (now : ℕ) (hop : op = .localHandoff accepted now)
      (hcore : e'.tx.core = e.tx.core)
      (hnotes : e'.notes.flight = ((e.tx.segs.map (handOffSeg accepted now)).map Seg.mark,
        e.notes.credited, e.notes.tracked))
  | discard (token : LocalTransmit) (cell : List UInt8) (hop : op = .discardReceivedCell cell)
      (htoken : LocalTransmit.fromCell cell = some token)
      (hheld : Seq.leq (token.seq + token.span) e.tx.sndUna = true ∨
        ∀ s ∈ e.tx.segs, overlaps token.seq (token.seq + token.span) s = true → s.sacked = true)
      (hcore : e'.tx.core = e.tx.core)
      (hnotes : e'.notes.flight = ((e.tx.segs.map fun s =>
        if overlaps token.seq (token.seq + token.span) s then { s with localPending := false }
        else s).map Seg.mark, e.notes.credited, e.notes.tracked))

open StreamEngine in
theorem flight_onCell (e : StreamEngine) (cell : List UInt8) (now : ℕ) :
    Flight (.onCell cell now) e (e.onCell cell now) := by
  have hprogress : e.notePeerProgress.tx.core = e.tx.core ∧
      e.notePeerProgress.notes.flight = e.notes.flight :=
    ⟨congrArg View.core (tends_notePeerProgress e).1,
      congrArg Notes.flight (tends_notePeerProgress e).2⟩
  rw [onCell]
  split
  · exact .same rfl rfl
  next frame hframe =>
    split
    · exact .same rfl rfl
    next hid =>
      cases frame with
      | syn i isn win => refine .same ?_ ?_ <;> dsimp only <;> rw [onSyn] <;> split <;> rfl
      | synAck i isn win ack =>
        dsimp only
        rw [onSynack]
        split
        next hphase =>
          split
          · exact .same rfl rfl
          · exact .opened hphase _ _ rfl rfl
        · split <;> exact .same rfl rfl
      | data i seq win payload =>
        dsimp only
        rw [onData]
        split
        · exact .same rfl rfl
        · split
          · exact .same hprogress.1 hprogress.2
          · simp only [ackData]
            split <;> split <;> split <;> try split
            all_goals exact .same hprogress.1 hprogress.2
      | ack i ack win sacks =>
        obtain rfl : i = e.streamId := not_not.mp hid
        rcases acks_onAck e ack win sacks now with ⟨h₁, h₂⟩ | ⟨hopen, hphase, hlimit, h⟩
        · exact .same h₁ (congrArg Notes.flight h₂)
        · exact .acks ack win sacks hframe hopen hphase hlimit h
      | fin i seq =>
        dsimp only
        rw [onPeerFin]
        split
        · exact .same rfl rfl
        · dsimp only
          split <;> exact .same hprogress.1 hprogress.2
      | rst i reason =>
        dsimp only
        rw [onRst]
        split <;> exact .same rfl rfl

open StreamEngine in
/-- **What a call does to the flight**: a write lengthens the queue, and any other call
is one of the cases of `Flight`. -/
theorem Trace.step_flight (t : Trace) (op : Op) :
    ((t.step op).written = t.written ∧ Flight op t.engine (t.step op).engine) ∨
      ∃ data, t.engine.tx.finRequested = false ∧ (t.step op).written = t.written ++ data ∧
        (t.step op).engine.tx.core =
          { t.engine.tx.core with pending := t.engine.tx.pending ++ data } ∧
        (t.step op).engine.notes = t.engine.notes := by
  cases op with
  | write data =>
    rw [step, write]
    split
    · exact .inl ⟨append_nil _, .same rfl rfl⟩
    next hopen =>
      exact .inr ⟨data, Bool.eq_false_iff.mpr (not_or.mp hopen).2,
        congrArg _ take_length, rfl, rfl⟩
  | finish => exact .inl ⟨rfl, .finish rfl rfl⟩
  | reset reason =>
    rw [step, reset]
    split <;> exact .inl ⟨rfl, .same rfl rfl⟩
  | read len =>
    rw [step, StreamEngine.read]
    dsimp only
    split <;> exact .inl ⟨rfl, .same rfl rfl⟩
  | pollEvent => exact .inl ⟨rfl, .same rfl rfl⟩
  | onCell cell now => exact .inl ⟨rfl, flight_onCell t.engine cell now⟩
  | pollTransmit now => exact .inl ⟨rfl, .sends (t.engine.sends_pollTransmitInner now true)⟩
  | pollRepairTransmit now => exact .inl ⟨rfl, .sends (t.engine.sends_pollTransmitInner now false)⟩
  | onTimeout now => exact .inl ⟨rfl, .expires (t.engine.expires_onTimeout now)⟩
  | trackHandoffs => exact .inl ⟨rfl, .track rfl rfl⟩
  | localHandoff accepted now =>
    exact .inl ⟨rfl, .handoff accepted now rfl
      (congrArg View.core (view_localHandoff _ accepted now))
      (congrArg Notes.flight (t.engine.notes_localHandoff accepted now))⟩
  | discardReceivedCell cell =>
    have hview := congrArg View.core (view_discardReceivedCell t.engine cell)
    refine .inl ⟨rfl, ?_⟩
    rw [step]
    revert hview
    rw [discardReceivedCell]
    split
    · exact fun _ => .same rfl rfl
    next token htoken =>
      split
      · exact fun _ => .same rfl rfl
      · dsimp only
        split
        · exact fun _ => .same rfl rfl
        next hheld =>
          refine fun hview => .discard token cell rfl htoken ?_ hview rfl
          simp only [Bool.and_eq_true, Bool.or_eq_true, Bool.not_eq_true', not_and, not_or] at hheld
          refine (em _).imp_right fun hleq s hs hmeets => ?_
          obtain ⟨-, hnone⟩ := hheld (Bool.eq_false_iff.mpr hleq)
          by_contra hsacked
          refine hnone (any_eq_true.mpr ⟨s, hs, ?_⟩)
          rw [hmeets, Bool.eq_false_iff.mpr hsacked]
          rfl

/-- Without DATA and FIN, only the handshake places the receiving half. -/
theorem Moves.rx_eq {f : Option Frame} {v v' : View} (h : Moves f v v')
    (hdata : ∀ seq win payload, f ≠ some (.data v.streamId seq win payload))
    (hfin : ∀ seq, f ≠ some (.fin v.streamId seq)) :
    v'.rx = { v.rx with rcvNxt := v'.rx.rcvNxt, lastAckWindow := v'.rx.lastAckWindow } ∧
      (v'.rx.rcvNxt = v.rx.rcvNxt ∧ (v'.phase = v.phase ∨ v'.phase = .closed) ∨
        v.phase = .listen ∨ v.phase = .synSent) := by
  -- no move changes the identifier that the two hypotheses name
  refine (h.keep (P := fun u => u.streamId = v.streamId ∧
    u.rx = { v.rx with rcvNxt := u.rx.rcvNxt, lastAckWindow := u.rx.lastAckWindow } ∧
    (u.rx.rcvNxt = v.rx.rcvNxt ∧ (u.phase = v.phase ∨ u.phase = .closed) ∨
      v.phase = .listen ∨ v.phase = .synSent)) ?_ ⟨rfl, rfl, .inl ⟨rfl, .inl rfl⟩⟩).2
  rintro u u' hmove ⟨hid, hrx, hplace⟩
  have hwaits (hph : u.phase = .listen ∨ u.phase = .synSent) :
      v.phase = .listen ∨ v.phase = .synSent := by
    rcases hplace with ⟨-, hsame | hclosed⟩ | hwait
    · rwa [hsame] at hph
    · simp [hclosed] at hph
    · exact hwait
  cases hmove with
  | data _ seq win payload => exact absurd (by rw [hid]) (hdata seq win payload)
  | fin _ seq => exact absurd (by rw [hid]) (hfin seq)
  | syn _ isn win hphase => exact ⟨hid, by rw [hrx], .inr (hwaits (.inl hphase))⟩
  | synAck _ isn win hphase => exact ⟨hid, by rw [hrx], .inr (hwaits (.inr hphase))⟩
  | settle _ win => exact ⟨hid, by rw [hrx], hplace⟩
  | close => exact ⟨hid, hrx, hplace.imp_left fun h => ⟨h.1, .inr rfl⟩⟩
  | _ => exact ⟨hid, hrx, hplace⟩

end VeilNetwork.OnionStream
