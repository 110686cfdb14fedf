import VeilNetwork.OnionStream.Notes
import VeilNetwork.OnionStream.Stored

/-!
# The end of the peer's direction

A receiving half reaches the end of its stream once, tells the driver so once, and
hands out nothing afterwards – as long as the cells arrive in the order a peer sends
them. `Trace.orderly` is that order, and three arrivals are outside it. DATA that fills
the last gap below an early FIN (`RxState.fillsLastGap`) reaches the end inside `accept`,
which queues no event. A FIN repeated after the event was polled queues it again, since
only the events still waiting are looked at. And DATA past the FIN is accepted like any
other, so that a stream at its end is not at its end any more.

The gaps are those of whatever is stored, which need not be what a peer would send: DATA
is taken before the handshake too, which then moves `rcvNxt` under it. So a gap is not
counted in bytes; `RxState.leads` follows the stored intervals from point to point.
-/

namespace VeilNetwork.OnionStream

open List StreamEngine RxState OnionStream.Frame

/-! ### The last gap -/

namespace RxState

variable (rx : RxState)

/-- Where a segment that ends at `stop` leads from a point below its end: to its end or
to the start of a stored interval below that. From the start of a stored interval on,
that interval leads to its own end. -/
def hops (stop p : UInt32) : List UInt32 :=
  (if Seq.lt p stop then stop :: rx.oo.keys.filter (Seq.lt · stop) else []) ++
    (rx.oo.entries.filter fun e => Seq.leq e.1 p).map fun e => e.1 + UInt32.ofNat e.2.length

/-- The points that up to `n` hops lead to. -/
def leads (rx : RxState) (stop : UInt32) : ℕ → UInt32 → List UInt32
  | 0, p => [p]
  | n + 1, p => p :: (rx.hops stop p).flatMap (rx.leads stop n)

/-- The part of a segment that `accept` takes if the segment is in order: what lies at or
above `rcvNxt` and fits in the buffer. -/
def inOrder (seq : UInt32) (payload : List UInt8) : List UInt8 :=
  (payload.drop (rx.rcvNxt - seq).toNat).take
    (Saturating.sub32 rx.window (UInt32.ofNat rx.readBuf.length)).toNat

/-- The segment is in order and fills the last gap below a FIN that came before it: its
bytes and the stored ones lead from `rcvNxt` to the FIN. One round of `accept` copies
once and then drains, and there are no more rounds than stored intervals, plus one. -/
def fillsLastGap (seq : UInt32) (payload : List UInt8) : Bool :=
  rx.peerFinSeq.any fun fin =>
    Seq.leq seq rx.rcvNxt && !(rx.inOrder seq payload).isEmpty &&
      (rx.leads (rx.rcvNxt + UInt32.ofNat (rx.inOrder seq payload).length)
        ((rx.oo.size + 1) * (rx.oo.size + 2)) rx.rcvNxt).contains fin

end RxState

namespace Trace

/-- The events a call queues. -/
def newEvents (t : Trace) (op : Op) : List Event :=
  (t.step op).engine.events.drop t.engine.events.length

/-- A cell in the order of the stream: DATA neither fills the last gap below a FIN that
came before it nor reaches past the end of the stream, and a FIN is not repeated after the
end was polled. -/
def orderly (t : Trace) (op : Op) : Bool :=
  match op.arrived with
  | some (.data i seq _ payload) =>
    decide (i ≠ t.engine.streamId) || decide (t.engine.phase = .closed) || payload.isEmpty ||
      if t.engine.rx.eof then
        Seq.lt seq t.engine.rx.rcvNxt &&
          decide (payload.length ≤ (t.engine.rx.rcvNxt - seq).toNat)
      else !t.engine.rx.fillsLastGap seq payload
  | some (.fin i _) =>
    decide (i ≠ t.engine.streamId) || decide (t.engine.phase = .closed) || !t.engine.rx.eof ||
      decide (Event.peerFinished ∈ t.engine.events)
  | _ => true

end Trace

/-! ### What a call does to the end -/

namespace StreamEngine

variable (e : StreamEngine)

theorem notePeerProgress_end :
    e.notePeerProgress.events = e.events ∧ e.notePeerProgress.rx = e.rx := by
  rw [notePeerProgress]
  split <;> exact ⟨rfl, rfl⟩

/-- DATA queues no event; it does to the receiving half what `accept` does. -/
theorem onData_end (seq win : UInt32) (payload : List UInt8) (now : ℕ) :
    (e.onData seq win payload now).events = e.events ∧
      (e.onData seq win payload now).rx =
        if e.phase = .closed ∨ payload = [] then e.rx else (e.rx.accept seq payload).1 := by
  have hnote := notePeerProgress_end e
  have hack (e : StreamEngine) (advanced : Bool) : (e.ackData advanced now).events = e.events ∧
      (e.ackData advanced now).rx = e.rx := by
    rw [ackData]
    dsimp only
    repeat' split
    all_goals exact ⟨rfl, rfl⟩
  rw [onData]
  split
  next hphase => exact ⟨rfl, by rw [if_pos (.inl hphase)]⟩
  next hphase =>
    obtain ⟨hevents, hrx⟩ := hnote
    split
    next hempty => exact ⟨hevents, by rw [if_pos (.inr (isEmpty_iff.mp hempty)), hrx]⟩
    next hempty =>
      rw [if_neg (by simp only [hphase]; simpa using hempty), ← hevents, ← hrx]
      dsimp only
      split <;> split <;> simp only [(hack _ _).1, (hack _ _).2, and_self]

/-- A FIN cell marks where the stream ends, and tells the driver unless it is told. -/
theorem onPeerFin_end (seq : UInt32) (hphase : e.phase ≠ .closed) :
    (e.onPeerFin seq).rx = { e.rx with peerFinSeq := some seq }.tryConsumeFin ∧
      (e.onPeerFin seq).events = e.events ++
        if { e.rx with peerFinSeq := some seq }.tryConsumeFin.eof = true ∧
            Event.peerFinished ∉ e.events then [.peerFinished] else [] := by
  have hnote := notePeerProgress_end e
  rw [onPeerFin, if_neg hphase]
  rw [← hnote.1, ← hnote.2]
  dsimp only
  split
  · exact ⟨rfl, rfl⟩
  · exact ⟨rfl, (append_nil _).symm⟩

theorem onPeerFin_closed {e : StreamEngine} (hphase : e.phase = .closed) (seq : UInt32) :
    e.onPeerFin seq = e := if_pos hphase

end StreamEngine

/-- Consuming the FIN reaches the end, and takes nothing from what waits to be read. -/
theorem RxState.tryConsumeFin_end (rx : RxState) :
    (rx.eof = true → rx.tryConsumeFin.eof = true) ∧ rx.tryConsumeFin.readBuf = rx.readBuf := by
  rw [tryConsumeFin]
  split
  · exact ⟨fun _ => rfl, rfl⟩
  · exact ⟨id, rfl⟩

/-! ### Filling the last gap -/

namespace RxState

variable {rx rx' : RxState} {stop p q r : UInt32} {m n : ℕ}

theorem self_mem_leads : p ∈ rx.leads stop n p := by
  cases n <;> exact mem_cons_self

theorem leads_of_hop (h : q ∈ rx.hops stop p) (hr : r ∈ rx.leads stop n q) :
    r ∈ rx.leads stop (n + 1) p :=
  mem_cons_of_mem _ (mem_flatMap.mpr ⟨q, h, hr⟩)

theorem leads_mono (hn : n ≤ m) (h : q ∈ rx.leads stop n p) : q ∈ rx.leads stop m p := by
  induction n generalizing m p with
  | zero =>
    obtain rfl := mem_singleton.mp h
    exact self_mem_leads
  | succ n ih =>
    obtain ⟨m, rfl⟩ := Nat.exists_eq_add_of_lt hn
    rcases mem_cons.mp h with rfl | h
    · exact self_mem_leads
    · obtain ⟨r, hr, hq⟩ := mem_flatMap.mp h
      exact leads_of_hop hr (ih (by omega) hq)

theorem leads_trans (h : q ∈ rx.leads stop m p) (hr : r ∈ rx.leads stop n q) :
    r ∈ rx.leads stop (m + n) p := by
  induction m generalizing p with
  | zero =>
    obtain rfl := mem_singleton.mp h
    exact leads_mono (Nat.le_add_left _ _) hr
  | succ m ih =>
    rcases mem_cons.mp h with rfl | h
    · exact leads_mono (Nat.le_add_left _ _) hr
    · obtain ⟨s, hs, hq⟩ := mem_flatMap.mp h
      rw [Nat.add_right_comm]
      exact leads_of_hop hs (ih hq)

/-- An interval at or behind `rcvNxt` is skipped, or followed to its end. -/
theorem rcvNxt_absorb {k : UInt32} {v : List UInt8} (hk : Seq.leq k rx.rcvNxt = true) :
    (rx.absorb k v).rcvNxt = rx.rcvNxt ∨
      (rx.absorb k v).rcvNxt = k + UInt32.ofNat v.length := by
  rw [absorb]
  split
  · dsimp only
    split
    next hskip =>
      right
      show rx.rcvNxt + UInt32.ofNat (v.length - (rx.rcvNxt - k).toNat) = _
      have hlen : v.length = (rx.rcvNxt - k).toNat + (v.length - (rx.rcvNxt - k).toNat) := by
        omega
      rw [congrArg UInt32.ofNat hlen, UInt32.ofNat_add, UInt32.ofNat_toNat, ← UInt32.add_assoc,
        UInt32.add_comm k, UInt32.sub_add_cancel]
    · exact .inl rfl
  next hlt =>
    rw [(Seq.leq_iff.mp hk).resolve_right hlt]
    exact .inr rfl

/-- Every interval drained is one of those stored, and `rcvNxt` moves to its end. -/
theorem drainLoop_leads (stop : UInt32) (fuel : ℕ)
    (hsub : rx'.oo.entries.Sublist rx.oo.entries) :
    (drainLoop fuel rx').oo.entries.Sublist rx.oo.entries ∧
      (drainLoop fuel rx').rcvNxt ∈ rx.leads stop fuel rx'.rcvNxt ∧
      SameRest rx' (drainLoop fuel rx') := by
  induction fuel generalizing rx' with
  | zero => exact ⟨hsub, self_mem_leads, .refl _⟩
  | succ fuel ih =>
    rw [drainLoop]
    split
    · exact ⟨hsub, self_mem_leads, .refl _⟩
    next k v hcand =>
      split
      next hk =>
        have hmem : (k, v) ∈ rx'.oo.entries := by
          rcases Option.or_eq_some_iff.mp hcand with h | ⟨-, h⟩ <;>
            exact (mem_filter.mp (mem_of_mem_head? h)).1
        have habs (s : RxState) : (s.absorb k v).oo = s.oo ∧ SameRest s (s.absorb k v) := by
          rw [absorb]
          dsimp only
          repeat' split
          all_goals exact ⟨rfl, rfl, rfl, rfl, rfl⟩
        generalize hs : { rx' with oo := rx'.oo.erase k, ooBytes := rx'.ooBytes - v.length } = s
        have hnxt : s.rcvNxt = rx'.rcvNxt := hs ▸ rfl
        have hrest : SameRest rx' s := hs ▸ ⟨rfl, rfl, rfl, rfl⟩
        have hsub' : (s.absorb k v).oo.entries.Sublist rx.oo.entries := by
          rw [(habs s).1, ← hs]
          exact filter_sublist.trans hsub
        obtain ⟨hoo, hleads, hsame⟩ := ih hsub'
        refine ⟨hoo, ?_, (hrest.trans (habs s).2).trans hsame⟩
        have hle : Seq.leq k s.rcvNxt = true := hnxt ▸ hk
        rcases rcvNxt_absorb (v := v) hle with hstay | hend
        · rw [hstay, hnxt] at hleads
          exact leads_mono (Nat.le_succ _) hleads
        · rw [hend] at hleads
          refine leads_of_hop (mem_append_right _ (mem_map.mpr ⟨(k, v), ?_, rfl⟩)) hleads
          exact mem_filter.mpr ⟨hsub.subset hmem, hk⟩
      · exact ⟨hsub, self_mem_leads, .refl _⟩

/-- A copy ends at the end of the segment or at an interval stored below it. -/
theorem nextStored_mem_hops (hsub : rx'.oo.entries.Sublist rx.oo.entries)
    (hlt : Seq.lt rx'.rcvNxt stop = true) : rx'.nextStored stop ∈ rx.hops stop rx'.rcvNxt := by
  refine mem_append_left _ ?_
  rw [if_pos hlt, nextStored]
  cases hnext : (((rx'.oo.rangeFrom rx'.rcvNxt).head?.or rx'.oo.first?).map Prod.fst).filter
      (Seq.lt · stop) with
  | none => exact mem_cons_self
  | some start =>
    obtain ⟨hstart, hstop⟩ := Option.filter_eq_some_iff.mp hnext
    obtain ⟨e, he, rfl⟩ := Option.map_eq_some_iff.mp hstart
    have hmem : e ∈ rx'.oo.entries := by
      rcases Option.or_eq_some_iff.mp he with h | ⟨-, h⟩
      · exact (mem_filter.mp (mem_of_mem_head? h)).1
      · exact mem_of_mem_head? h
    exact mem_cons_of_mem _ (mem_filter.mpr ⟨mem_map_of_mem (hsub.subset hmem), hstop⟩)

/-- One hop for the copy of a round, and one for each interval it drains. -/
theorem fillLoop_leads (seg : UInt32) (payload : List UInt8) (stop : UInt32) (fuel : ℕ)
    (hsub : rx'.oo.entries.Sublist rx.oo.entries) :
    (fillLoop seg payload stop fuel rx').rcvNxt ∈
        rx.leads stop (fuel * (rx.oo.size + 2)) rx'.rcvNxt ∧
      SameRest rx' (fillLoop seg payload stop fuel rx') := by
  induction fuel generalizing rx' with
  | zero => exact ⟨self_mem_leads, .refl _⟩
  | succ fuel ih =>
    rw [fillLoop]
    split
    next hlt =>
      have hhop := nextStored_mem_hops hsub hlt
      dsimp only
      generalize hs : { rx' with
        readBuf := rx'.readBuf ++ (payload.drop (rx'.rcvNxt - seg).toNat).take
          (rx'.nextStored stop - rx'.rcvNxt).toNat
        rcvNxt := rx'.nextStored stop } = s
      have hnxt : s.rcvNxt = rx'.nextStored stop := hs ▸ rfl
      have hoo : s.oo = rx'.oo := hs ▸ rfl
      have hrest : SameRest rx' s := hs ▸ ⟨rfl, rfl, rfl, rfl⟩
      obtain ⟨hsub', hdrain, hsame⟩ := drainLoop_leads stop (s.oo.size + 1)
        (hoo ▸ hsub : s.oo.entries.Sublist rx.oo.entries)
      obtain ⟨hfill, hsame'⟩ := ih hsub'
      refine ⟨leads_mono ?_ (leads_of_hop (hnxt ▸ hhop) (leads_trans hdrain hfill)),
        (hrest.trans hsame).trans hsame'⟩
      have hsize : s.oo.size ≤ rx.oo.size := by
        rw [hoo]
        exact hsub.length_le
      rw [Nat.succ_mul]
      omega
    · exact ⟨self_mem_leads, .refl _⟩

/-- Nothing stored beyond a gap reaches the end. -/
theorem storeOo_eof (rx : RxState) (seq : UInt32) (payload : List UInt8) :
    (rx.storeOo seq payload).eof = rx.eof := by
  have hfold (gs : List (UInt32 × ℕ)) (rx : RxState) :
      (gs.foldl (storeGap seq payload) rx).eof = rx.eof := by
    induction gs generalizing rx with
    | nil => rfl
    | cons g gs ih => exact ih _
  rw [storeOo]
  dsimp only
  split
  · rfl
  · exact hfold _ _

/-- **DATA reaches the end of the stream only by filling the last gap** below a FIN. -/
theorem fillsLastGap_of_eof {seq : UInt32} {payload : List UInt8} (hne : payload ≠ [])
    (heof : rx.eof = false) (h : (rx.accept seq payload).1.eof = true) :
    rx.fillsLastGap seq payload = true := by
  have hopen : ¬rx.eof = true := by simp [heof]
  -- only the in-order branch of `acceptTail` looks at the FIN
  have htail (rest : List UInt8) (hrest : rest = payload.drop (rx.rcvNxt - seq).toNat)
      (hpos : rest ≠ []) (hseq : Seq.leq seq rx.rcvNxt = true)
      (h : (rx.acceptTail rx.rcvNxt rest).1.eof = true) : rx.fillsLastGap seq payload = true := by
    rw [acceptTail, UInt32.sub_self, UInt32.sub_zero] at h
    dsimp only at h
    split at h
    · exact absurd h hopen
    next hspace =>
      rw [if_pos rfl, hrest, ← inOrder] at h
      obtain ⟨hleads, hsame⟩ := fillLoop_leads rx.rcvNxt (rx.inOrder seq payload)
        (rx.rcvNxt + UInt32.ofNat (rx.inOrder seq payload).length) (rx.oo.size + 1)
        (.refl rx.oo.entries)
      generalize fillLoop _ _ _ _ rx = last at h hleads hsame
      rw [tryConsumeFin] at h
      split at h
      next hcond =>
        have hsome : (rx.inOrder seq payload).isEmpty = false := by
          rw [isEmpty_eq_false_iff, inOrder, ← hrest, ne_eq, take_eq_nil_iff, not_or]
          refine ⟨fun hzero => hspace ?_, hpos⟩
          rw [UInt32.le_iff_toNat_le, hzero]
          exact Nat.zero_le _
        rw [fillsLastGap, ← hsame.peerFinSeq, hcond.1, Option.any_some, hseq, hsome, Bool.not_false,
          Bool.true_and, Bool.true_and, contains_iff_mem]
        exact hleads
      · exact absurd (hsame.eof ▸ h) hopen
  rw [RxState.accept] at h
  split at h
  next hlt =>
    dsimp only at h
    split at h
    · exact absurd h hopen
    next hlong =>
      refine htail _ rfl ?_ (Seq.leq_iff.mpr (.inr hlt)) h
      rwa [ne_eq, drop_eq_nil_iff]
  next hlt =>
    by_cases heq : seq = rx.rcvNxt
    · subst heq
      refine htail payload ?_ hne (Seq.leq_iff.mpr (.inl rfl)) h
      rw [UInt32.sub_self]
      rfl
    · rw [acceptTail] at h
      dsimp only at h
      split at h
      · exact absurd h hopen
      · exact absurd ((storeOo_eof _ _ _).symm.trans h) hopen

end RxState

/-! ### Every run -/

namespace Trace

/-- The end of the stream was queued exactly if it was reached. -/
structure Told (t : Trace) (log : List Event) : Prop where
  count : log.count .peerFinished = if t.engine.rx.eof then 1 else 0
  silent : t.engine.rx.eof = false → Event.peerFinished ∉ t.engine.events

variable {t : Trace} {op : Op}

/-- Calls that bring neither DATA nor FIN leave the end where it is. -/
theorem eof_of_not_bears (h : ¬op.Bears t.engine.streamId) :
    (t.step op).engine.rx.eof = t.engine.rx.eof ∧
      ∃ n, (t.step op).engine.rx.readBuf = t.engine.rx.readBuf.drop n ∧
        (t.step op).delivered = t.delivered ++ t.engine.rx.readBuf.take n := by
  have hdata (seq win : UInt32) (payload : List UInt8) :
      op.arrived ≠ some (.data t.engine.streamId seq win payload) :=
    fun ha => h (.inl ⟨seq, win, payload, ha⟩)
  have hfin (seq : UInt32) : op.arrived ≠ some (.fin t.engine.streamId seq) :=
    fun ha => h (.inr ⟨seq, ha⟩)
  rcases t.step_cases op with ⟨hmoves, -, hd⟩ | ⟨data, -, -, -, hv, -, hd⟩ | ⟨n, hmoves, -, hd⟩
  · obtain ⟨hrx, -⟩ := hmoves.rx_eq hdata hfin
    refine ⟨(congrArg eof hrx :), 0, (congrArg readBuf hrx :), ?_⟩
    rw [hd, take_zero, append_nil]
  · have hrx : (t.step op).engine.rx = t.engine.rx := congrArg View.rx hv
    exact ⟨congrArg eof hrx, 0, congrArg readBuf hrx, by
      rw [hd, take_zero, append_nil]⟩
  · obtain ⟨hrx, -⟩ := hmoves.rx_eq (by simp) (by simp)
    exact ⟨(congrArg eof hrx :), n, (congrArg readBuf hrx :), hd⟩

theorem Told.step {log : List Event} (h : Told t log)
    (horder : t.orderly op = true) : Told (t.step op) (log ++ t.newEvents op) := by
  have hsame {new : List Event} (heof : (t.step op).engine.rx.eof = t.engine.rx.eof)
      (hnew : Event.peerFinished ∉ new)
      (hevents : (t.step op).engine.events = t.engine.events ++ new) :
      Told (t.step op) (log ++ t.newEvents op) := by
    refine ⟨?_, fun he => ?_⟩
    · rw [newEvents, hevents, drop_left, count_append, h.count,
        count_eq_zero.mpr hnew, heof]
      rfl
    · rw [hevents, mem_append, not_or]
      exact ⟨h.silent (heof ▸ he), hnew⟩
  rcases t.step_notes op with ⟨seq, win, payload, now, harr, hstep⟩ | ⟨seq, harr, hstep⟩ | rfl |
    ⟨hbears, new, hnew, hevents, -, -⟩
  · -- DATA queues nothing, so it must not reach the end
    obtain ⟨hevents, hrx⟩ := t.engine.onData_end seq win payload now
    have hev : (t.step op).engine.events = t.engine.events ++ [] := by
      rwa [hstep, append_nil]
    refine hsame ?_ not_mem_nil hev
    have hrx' : (t.step op).engine.rx = _ := (congrArg (fun u => u.engine.rx) hstep).trans hrx
    by_cases hskip : t.engine.phase = .closed ∨ payload = []
    · rw [hrx', if_pos hskip]
    · rw [if_neg hskip] at hrx'
      obtain ⟨hphase, hne⟩ := not_or.mp hskip
      have hempty : payload.isEmpty = false := by simpa using hne
      simp only [orderly, harr, hphase, hempty, ne_eq, not_true_eq_false, decide_false,
        Bool.false_or] at horder
      cases heof : t.engine.rx.eof with
      | false =>
        rw [hrx', Bool.eq_false_iff]
        intro hend
        simp [heof, fillsLastGap_of_eof hne heof hend] at horder
      | true =>
        simp only [heof, if_true, Bool.and_eq_true, decide_eq_true_eq] at horder
        rw [hrx', RxState.accept, if_pos horder.1]
        rwa [if_pos horder.2]
  · by_cases hphase : t.engine.phase = .closed
    · rw [onPeerFin_closed hphase] at hstep
      refine hsame ?_ not_mem_nil ?_ <;> rw [hstep]
      exact (append_nil _).symm
    · obtain ⟨hrx, hevents⟩ := t.engine.onPeerFin_end seq hphase
      have hrx' : (t.step op).engine.rx = _ := (congrArg (fun u => u.engine.rx) hstep).trans hrx
      have hev : (t.step op).engine.events = _ :=
        (congrArg (fun u => u.engine.events) hstep).trans hevents
      rw [← hrx'] at hev
      cases heof : t.engine.rx.eof with
      | true =>
        -- the driver has not polled the event yet, so it is not queued again
        have hold : Event.peerFinished ∈ t.engine.events := by
          simpa [orderly, harr, hphase, heof] using horder
        have hkeep : (t.step op).engine.rx.eof = true := by
          rw [hrx']
          exact (tryConsumeFin_end _).1 heof
        rw [if_neg fun hcon => hcon.2 hold] at hev
        exact hsame (hkeep.trans heof.symm) not_mem_nil hev
      | false =>
        have hold := h.silent heof
        cases hnow : (t.step op).engine.rx.eof with
        | false =>
          rw [hnow] at hev
          exact hsame (hnow.trans heof.symm) not_mem_nil hev
        | true =>
          rw [if_pos ⟨hnow, hold⟩] at hev
          refine ⟨?_, fun he => ?_⟩
          · rw [newEvents, hev, drop_left, count_append, h.count, heof, hnow]
            rfl
          · rw [hnow] at he
            cases he
  · have hbears : ¬Op.pollEvent.Bears t.engine.streamId := by simp [Op.Bears, Op.arrived]
    obtain ⟨heof, -⟩ := eof_of_not_bears hbears
    have hnone : t.newEvents .pollEvent = [] :=
      drop_eq_nil_of_le ((length_tail).trans_le (Nat.sub_le _ _))
    rw [hnone, append_nil]
    exact ⟨heof ▸ h.count, fun he hmem => h.silent (heof ▸ he) (mem_of_mem_tail hmem)⟩
  · exact hsame (eof_of_not_bears hbears).1 hnew hevents

/-- A trace at the end of its stream, with all it will ever deliver. -/
structure AtEnd (delivered : List UInt8) (t : Trace) : Prop where
  eof : t.engine.rx.eof = true
  readBuf : t.engine.rx.readBuf = []
  delivered : t.delivered = delivered

theorem AtEnd.step {delivered : List UInt8} (h : AtEnd delivered t)
    (horder : t.orderly op = true) : AtEnd delivered (t.step op) := by
  rcases t.step_notes op with ⟨seq, win, payload, now, harr, hstep⟩ | ⟨seq, harr, hstep⟩ | rfl |
    ⟨hbears, -⟩
  · obtain ⟨-, hrx⟩ := t.engine.onData_end seq win payload now
    have hsame : (t.engine.onData seq win payload now).rx = t.engine.rx := by
      rw [hrx]
      split
      · rfl
      next hskip =>
        obtain ⟨hphase, hne⟩ := not_or.mp hskip
        have hempty : payload.isEmpty = false := by simpa using hne
        simp only [orderly, harr, hphase, hempty, h.eof, ne_eq, not_true_eq_false, decide_false,
          Bool.false_or, if_true, Bool.and_eq_true, decide_eq_true_eq] at horder
        rw [RxState.accept, if_pos horder.1]
        rw [if_pos horder.2]
    rw [hstep]
    exact ⟨(congrArg RxState.eof hsame).trans h.eof,
      (congrArg RxState.readBuf hsame).trans h.readBuf, h.delivered⟩
  · rw [hstep]
    by_cases hphase : t.engine.phase = .closed
    · rwa [onPeerFin_closed hphase]
    · obtain ⟨hrx, -⟩ := t.engine.onPeerFin_end seq hphase
      obtain ⟨hend, hbuf⟩ := tryConsumeFin_end
        { t.engine.rx with peerFinSeq := some seq }
      refine ⟨?_, ?_, h.delivered⟩
      · rw [hrx]
        exact hend h.eof
      · rw [hrx, hbuf]
        exact h.readBuf
  · exact ⟨h.eof, h.readBuf, h.delivered⟩
  · obtain ⟨heof, n, hbuf, hd⟩ := eof_of_not_bears hbears
    rw [h.readBuf, drop_nil] at hbuf
    rw [h.readBuf, take_nil, append_nil] at hd
    exact ⟨heof.trans h.eof, hbuf, hd.trans h.delivered⟩

/-- **The end of the stream is told once and stays**: along every run of orderly arrivals,
`PeerFinished` has been queued once if the receiving half has reached the end and not at
all if it has not; and a stream at its end stays there and delivers nothing more. -/
theorem end_told_once_and_stays (role : Role) (streamId : UInt32) (cfg : Config) (now : ℕ)
    (iss : UInt32) (ops ops' : List Op) (t : Trace)
    (ht : t = (Trace.start (role.engine streamId cfg now iss)).run ops)
    (horder : Run.Along step (fun t op => t.orderly op = true)
      (Trace.start (role.engine streamId cfg now iss)) (ops ++ ops')) :
    (Run.outputs step newEvents (Trace.start (role.engine streamId cfg now iss)) ops).count
        .peerFinished = (if t.engine.rx.eof then 1 else 0) ∧
      (t.engine.isEof = true →
        (t.run ops').engine.isEof = true ∧ (t.run ops').delivered = t.delivered) := by
  obtain ⟨hops, hops'⟩ := Run.along_append.mp horder
  rw [← run, ← ht] at hops'
  refine ⟨?_, fun heof => ?_⟩
  · have hstart : Told (.start (role.engine streamId cfg now iss)) [] := by
      cases role <;> exact ⟨rfl, fun _ => not_mem_nil⟩
    have htold := Run.invariant_outputs_along (fun t op log hc h => Told.step h hc) hstart hops
    rw [ht]
    exact htold.count
  · obtain ⟨hend, hbuf⟩ := Bool.and_eq_true_iff.mp heof
    have hlast : AtEnd t.delivered (t.run ops') :=
      Run.invariant_along (fun t op hc h => AtEnd.step h hc)
        ⟨hend, isEmpty_iff.mp hbuf, rfl⟩ hops'
    refine ⟨?_, hlast.delivered⟩
    rw [isEof, hlast.eof, hlast.readBuf]
    rfl

/-- A responder that receives one byte and the FIN, with its handshake before them. -/
def byteThenFin : List Op :=
  [.onCell (Frame.syn 3 40 9000).encode 0, .onCell (Frame.data 3 41 9000 [7]).encode 1,
    .onCell (Frame.fin 3 42).encode 2, .read 5]

/-- In order: a repeated FIN while the event waits, and the same byte once more. -/
theorem end_told_once_and_stays_in_order :
    let t := (Trace.start (Role.responder.engine 3 Config.default 0 7)).run byteThenFin
    let more : List Op := [.onCell (fin 3 42).encode 3,
      .onCell (data 3 41 9000 [7]).encode 4, .pollEvent, .pollEvent, .read 5]
    (Run.outputs step newEvents (Trace.start (Role.responder.engine 3 Config.default 0 7))
        byteThenFin).count .peerFinished = 1 ∧ t.engine.isEof = true ∧
      (t.run more).engine.isEof = true ∧ (t.run more).delivered = [7] := by
  have heof : ((Trace.start (Role.responder.engine 3 Config.default 0 7)).run
      byteThenFin).engine.isEof = true := by decide +kernel
  obtain ⟨hcount, hstays⟩ := end_told_once_and_stays .responder 3 Config.default 0 7 byteThenFin
    [.onCell (fin 3 42).encode 3, .onCell (data 3 41 9000 [7]).encode 4, .pollEvent,
      .pollEvent, .read 5] _ rfl (by decide +kernel)
  exact ⟨hcount.trans (by decide +kernel), heof, (hstays heof).1,
    (hstays heof).2.trans (by decide +kernel)⟩

/-- **Out of order**: a FIN before the last byte reaches the end without an event; a FIN
repeated after the event was polled queues a second one; a byte past the FIN is
delivered after the end of the stream. -/
theorem end_not_told_or_told_twice :
    let start := Trace.start (Role.responder.engine 3 Config.default 0 7)
    let syn := Op.onCell (syn 3 40 9000).encode 0
    let early : List Op := [syn, .onCell (fin 3 42).encode 1,
      .onCell (data 3 41 9000 [7]).encode 2]
    let twice : List Op := [syn, .onCell (fin 3 41).encode 1, .pollEvent, .pollEvent,
      .onCell (fin 3 41).encode 2]
    let past : List Op := [.onCell (data 3 42 9000 [9]).encode 2, .read 5]
    ((start.run early).engine.rx.eof = true ∧
        (Run.outputs step newEvents start early).count .peerFinished = 0) ∧
      (Run.outputs step newEvents start twice).count .peerFinished = 2 ∧
      (start.run [syn, .onCell (fin 3 41).encode 1]).engine.isEof = true ∧
      (start.run [syn, .onCell (fin 3 41).encode 1,
        .onCell (data 3 42 9000 [9]).encode 2]).engine.isEof = false ∧
      ((start.run [syn, .onCell (fin 3 41).encode 1]).run past).delivered = [9] := by
  decide +kernel

end Trace

end VeilNetwork.OnionStream
