import VeilNetwork.OnionStream.HalfClose
import VeilNetwork.OnionStream.Receiving

/-!
# Delivery

Two endpoints and a network that may lose, repeat and reorder every cell one of them emitted. Each
direction is one invariant over both ends: the sender's books (`Accounting`), the receiver's state
(`Receiving`), and what every cell on the network can say. An acknowledgement never runs ahead of
the receiver, so a sender whose FIN flags are no longer in step with its offsets has a receiver
that has already seen the end.

The handshake has one gap. Nothing but the phase of an endpoint says whether it
knows where its peer's direction starts, and neither `on_data` nor `on_peer_fin` looks
at it: an initiator still waiting for its SYN_ACK takes a segment as if the direction
started at zero. `Net.early` is that delivery; along every run without it both
directions deliver in order and exactly once.
-/

namespace VeilNetwork

open List Bool

variable {op : Op} {first : UInt32}

namespace OnionStream

open RxState Blocks

/-! ### What the cells say -/

namespace Trace

/-- A frame that one of the emitted cells carries. -/
def Says (t : Trace) (f : Frame) : Prop := ∃ cell ∈ t.emitted, Frame.decode cell = some f

end Trace

/-- A DATA or FIN frame tells the truth about what was written. -/
def Carried (first : UInt32) (W : List UInt8) (fin eof : Bool) : Frame → Prop
  | .data _ seq _ payload => ∃ o, seq = pos (RxTrace.base first) o ∧ SegmentOf W o payload
  | .fin _ seq => eof = true ∨ fin = true ∧ seq = pos (RxTrace.base first) W.length
  | _ => True

variable {f : Frame}

/-- What is written later, and the end that is reached later, leave it true. -/
theorem Carried.grow {W W' : List UInt8} {fin fin' eof eof' : Bool} (h : Carried first W fin eof f)
    (hpre : W <+: W') (hkeep : fin = true → fin' = true ∧ W' = W) (heof : eof = true → eof' = true) :
    Carried first W' fin' eof' f := by
  cases f with
  | data i seq win payload =>
    obtain ⟨o, hseq, hseg⟩ := h
    obtain ⟨rest, rfl⟩ := hpre
    exact ⟨o, hseq, hseg.append rest⟩
  | fin i seq =>
    rcases h with he | ⟨hfin, hseq⟩
    · exact .inl (heof he)
    · obtain ⟨hfin', rfl⟩ := hkeep hfin
      exact .inr ⟨hfin', hseq⟩
  | _ => trivial

/-- An ACK frame does not run ahead of the receiver. -/
def Acked (first : UInt32) (progress : ℕ) : Frame → Prop
  | .ack _ ack _ _ => ∃ k ≤ progress, ack = pos (RxTrace.base first) k
  | _ => True

theorem Acked.mono {p p' : ℕ} (h : Acked first p f) (hp : p ≤ p') : Acked first p' f := by
  cases f with
  | ack i ack win sacks =>
    obtain ⟨k, hk, hack⟩ := h
    exact ⟨k, hk.trans hp, hack⟩
  | _ => trivial

/-! ### Cells fit the wire -/

/-- Every segment fits one cell. -/
structure Fitting (v : View) : Prop where
  mss : v.cfg.mss32.toNat ≤ wireMss
  segs : ∀ b ∈ v.core.segs, b.data.length ≤ wireMss

namespace Fitting

theorem start (role : Role) (streamId : UInt32) {cfg : Config} (now : ℕ) (iss : UInt32)
    (hmss : cfg.mss ≤ wireMss) : Fitting (role.engine streamId cfg now iss).view := by
  have hle : wireMss < 2 ^ 32 := by decide
  have hfit : cfg.mss32.toNat ≤ wireMss := by
    rwa [Config.mss32, UInt32.toNat_ofNat_of_lt' (hmss.trans_lt hle)]
  cases role with
  | initiator | responder => exact ⟨hfit, nofun⟩

/-- Every move keeps the segments within a cell. -/
theorem move {f : Option Frame} {v v' : View} (hmove : Move f v v') (h : Fitting v) :
    Fitting v' := by
  cases hmove with
  | rewind => exact ⟨h.mss, nofun⟩
  | sendData _ n room hph hr hpos hle hmss hn =>
    refine ⟨h.mss, forall_mem_append.mpr ⟨h.segs, forall_mem_singleton.mpr ?_⟩⟩
    exact ((length_take_le _ _).trans hmss).trans h.mss
  | sendFin =>
    refine ⟨h.mss, forall_mem_append.mpr ⟨h.segs, forall_mem_singleton.mpr ?_⟩⟩
    exact Nat.zero_le _
  | advance _ ack =>
    refine ⟨h.mss, fun b hb => h.segs b ?_⟩
    rw [Core.segs_advance] at hb
    exact (dropWhile_sublist _).subset hb
  | _ => exact ⟨h.mss, h.segs⟩

theorem step {t : Trace} (op : Op) (h : Fitting t.engine.view) :
    Fitting (t.step op).engine.view :=
  Trace.step_invariant (P := fun v _ _ => Fitting v) (fun _ _ _ _ _ _ hm hv => hv.move hm)
    (fun _ _ _ _ _ _ hv => ⟨hv.mss, hv.segs⟩) (fun _ _ _ _ hv => ⟨hv.mss, hv.segs⟩) h

/-- A cell that is emitted decodes to what it was made from. -/
theorem decode_encode {v v' : View} (h : Fitting v') (hf : Emits v v' f) :
    Frame.decode f.encode = some f := by
  refine Frame.decode_encode ?_
  cases hf with
  | data b win hphase hb => exact h.segs b hb
  | _ => trivial

end Fitting

variable {t : Trace}

/-- **What is said after a call** was said before or is emitted by it. -/
theorem Trace.says_step (hfit : Fitting (t.step op).engine.view) (h : (t.step op).Says f) :
    t.Says f ∨ Emits t.engine.view (t.step op).engine.view f ∧ op.arrived = none ∧
      (t.step op).written = t.written ∧ (t.step op).delivered = t.delivered := by
  obtain ⟨cell, hcell, hdec⟩ := h
  rcases t.step_emitted op with hsame | ⟨g, hg, harr, hw, hd, hnew⟩
  · rw [hsame] at hcell
    exact .inl ⟨cell, hcell, hdec⟩
  · rw [hnew] at hcell
    rcases mem_append.mp hcell with hcell | hcell
    · exact .inl ⟨cell, hcell, hdec⟩
    · obtain rfl := mem_singleton.mp hcell
      rw [hfit.decode_encode hg] at hdec
      cases hdec
      exact .inr ⟨hg, harr, hw, hd⟩

/-! ### The receiver's end -/

/-- The endpoint knows where its peer's direction starts. -/
def Heard (first : UInt32) (W : List UInt8) (fin : Bool) (taken : List UInt8) (v : View) : Prop :=
  (v.phase = .established ∨ v.phase = .closed) ∧ ∃ B, Receiving first W fin taken B v.rx

/-- The endpoint has not: nothing was received, and nothing is owed. -/
structure Waiting (wait : Phase) (taken : List UInt8) (v : View) : Prop where
  phase : v.phase = wait ∨ v.phase = .closed
  owed : v.owed = true → v.phase = .closed
  greeting : v.greeting = false
  taken_eq : taken = []
  readBuf : v.rx.readBuf = []
  oo : v.rx.oo = OrdMap.empty
  ooBytes : v.rx.ooBytes = 0
  peerFinSeq : v.rx.peerFinSeq = none
  eof : v.rx.eof = false
  window_lt : v.rx.window.toNat < 2 ^ 31

/-- The receiver's end of a direction. -/
def Hears (wait : Phase) (first : UInt32) (W : List UInt8) (fin : Bool) (taken : List UInt8)
    (v : View) : Prop :=
  Waiting wait taken v ∨ Heard first W fin taken v

/-- The frames that open an endpoint carry the number its peer starts at. -/
def Opens (wait : Phase) (first : UInt32) : Frame → Prop
  | .syn _ isn _ => wait = .listen → isn + 1 = first
  | .synAck _ isn _ _ => wait = .synSent → isn = first
  | _ => True

section Receiver

variable {wait : Phase} {W : List UInt8} {fin eof : Bool} {taken : List UInt8} {v v' : View}
  {f : Option Frame}

/-- **An open receiver stays open**, told the truth. -/
theorem Heard.move (hmove : Move f v v') (h : Heard first W fin taken v) (hW : W.length < 2 ^ 31)
    (hf : ∀ frame ∈ f, Carried first W fin eof frame) (heof : eof = true → v.rx.eof = true) :
    Heard first W fin taken v' ∧ RxState.Follows taken v.rx taken v'.rx := by
  obtain ⟨hphase, B, h⟩ := h
  cases hmove with
  | close => exact ⟨⟨.inr rfl, B, h⟩, Follows.refl _ _⟩
  | settle _ win => exact ⟨⟨hphase, B, h.advertise win⟩, Follows.refl _ _⟩
  | syn _ isn win hph =>
    have hlis : v.phase = .listen := hph
    rw [hlis] at hphase
    exact absurd hphase (by decide)
  | synAck _ isn win hph =>
    have hsyn : v.phase = .synSent := hph
    rw [hsyn] at hphase
    exact absurd hphase (by decide)
  | data _ seq win payload hph hne =>
    obtain ⟨o, hseq, hseg⟩ := hf _ rfl
    obtain ⟨B', hB', hfollow⟩ := h.accept hW hseg hne
    rw [← hseq] at hB' hfollow
    exact ⟨⟨hphase, B', hB'⟩, hfollow⟩
  | fin _ seq =>
    obtain ⟨hB, hfollow⟩ := h.noteFin hW ((hf _ rfl).imp_left heof)
    exact ⟨⟨hphase, B, hB⟩, hfollow⟩
  | _ => exact ⟨⟨hphase, B, h⟩, Follows.refl _ _⟩

/-- A receiver that waits has not come anywhere. -/
theorem Waiting.follows (h : Waiting wait taken v) (taken' : List UInt8) (rx : RxState) :
    RxState.Follows taken v.rx taken' rx := by
  refine ⟨?_, fun he => ?_⟩
  · rw [progress, h.taken_eq, h.readBuf, h.eof]
    exact Nat.zero_le _
  · rw [h.eof] at he
    cases he

/-- **A receiver that waits** goes on waiting, is closed, or is opened at the right
number; DATA and FIN must not reach it. -/
theorem Waiting.move (hmove : Move f v v') (h : Waiting wait taken v)
    (hwait : wait = .listen ∨ wait = .synSent)
    (hquiet : v.phase = wait → ∀ frame ∈ f, frame.eliciting = false)
    (hopens : ∀ frame ∈ f, Opens wait first frame) : Hears wait first W fin taken v' := by
  have hest : v.phase ≠ .established := by
    rcases h.phase with hph | hph <;> rw [hph]
    · rcases hwait with rfl | rfl <;> decide
    · decide
  have hwaits {p : Phase} (hph : v.phase = p) (hp : p ≠ .closed) : wait = p :=
    (h.phase.resolve_right (hph.trans_ne hp)).symm.trans hph
  have hloud (hph : v.phase ≠ .closed) (frame : Frame) (hmem : frame ∈ f)
      (hel : frame.eliciting = true) : False := by
    rw [hquiet (h.phase.resolve_right hph) frame hmem] at hel
    exact false_ne_true hel
  have hopened (rx : RxState) (hnxt : rx.rcvNxt = first) (hbuf : rx.readBuf = v.rx.readBuf)
      (hoo : rx.oo = v.rx.oo) (hbytes : rx.ooBytes = v.rx.ooBytes)
      (hfin : rx.peerFinSeq = v.rx.peerFinSeq) (heof : rx.eof = v.rx.eof)
      (hw : rx.window = v.rx.window) : ∃ B, Receiving first W fin taken B rx := by
    rw [h.taken_eq]
    exact ⟨[], Receiving.opened (hbuf.trans h.readBuf) (hoo.trans h.oo) (hbytes.trans h.ooBytes)
      (hfin.trans h.peerFinSeq) (heof.trans h.eof) (hw ▸ h.window_lt) hnxt⟩
  cases hmove with
  | close => exact .inl ⟨.inr rfl, fun _ => rfl, h.3, h.4, h.5, h.6, h.7, h.8, h.9, h.10⟩
  | owe _ _ hwhy =>
    -- only a DATA or FIN frame can have made an acknowledgement due
    refine .inl ⟨h.phase, fun _ => ?_, h.3, h.4, h.5, h.6, h.7, h.8, h.9, h.10⟩
    obtain ⟨frame, hmem, hel⟩ := hwhy.resolve_left hest
    exact not_not.mp fun hph => hloud hph frame hmem hel
  | settle _ win =>
    exact .inl ⟨h.phase, nofun, h.3, h.4, h.5, h.6, h.7, h.8,
      h.9, h.10⟩
  | greet _ _ hph => exact absurd hph hest
  | greeted => exact .inl ⟨h.phase, h.owed, rfl, h.4, h.5, h.6, h.7, h.8, h.9, h.10⟩
  | probe _ _ hph | sendData _ n room hph | sendFin _ room hph => exact absurd hph hest
  | syn _ isn win hph =>
    have hlis : wait = .listen := hwaits hph (by decide)
    exact .inr ⟨.inl rfl, hopened _ (hopens _ rfl hlis) rfl rfl rfl rfl rfl rfl⟩
  | synAck _ isn win hph =>
    have hsyn : wait = .synSent := hwaits hph (by decide)
    exact .inr ⟨.inl rfl, hopened _ (hopens _ rfl hsyn) rfl rfl rfl rfl rfl rfl⟩
  | data _ seq win payload hph | fin _ seq hph => exact (hloud hph _ rfl rfl).elim
  | _ => exact .inl { h with }

/-- No move makes an endpoint wait. -/
theorem Move.phase_of_wait (hmove : Move f v v') (hwait : wait = .listen ∨ wait = .synSent)
    (hph : v'.phase = wait) : v.phase = wait := by
  cases hmove with
  | close | syn | synAck => rcases hwait with rfl | rfl <;> exact Phase.noConfusion hph
  | _ => exact hph

/-- **The receiver's end over one call.** -/
theorem Hears.step (hwait : wait = .listen ∨ wait = .synSent) (hW : W.length < 2 ^ 31)
    (hcarried : ∀ frame ∈ op.arrived, Carried first W fin t.engine.rx.eof frame)
    (hquiet : t.engine.phase = wait → ∀ frame ∈ op.arrived, frame.eliciting = false)
    (hopens : ∀ frame ∈ op.arrived, Opens wait first frame)
    (h : Hears wait first W fin t.delivered t.engine.view) :
    Hears wait first W fin (t.step op).delivered (t.step op).engine.view ∧
      (Heard first W fin t.delivered t.engine.view →
        Heard first W fin (t.step op).delivered (t.step op).engine.view) ∧
      RxState.Follows t.delivered t.engine.rx (t.step op).delivered (t.step op).engine.rx := by
  let P (v : View) (_ d : List UInt8) : Prop := Hears wait first W fin d v ∧
    (Heard first W fin t.delivered t.engine.view → Heard first W fin d v) ∧
    RxState.Follows t.delivered t.engine.rx d v.rx ∧ (v.phase = wait → t.engine.phase = wait)
  have hkey : P (t.step op).engine.view (t.step op).written (t.step op).delivered := by
    refine Trace.step_invariant (P := P) ?_ ?_ ?_ ⟨h, id, Follows.refl _ _, id⟩
    · rintro f v v' w d hf hmove ⟨hears, hopen, hfollow, hph⟩
      have hmem : ∀ frame ∈ f, frame ∈ op.arrived := by
        rintro frame hframe
        rcases hf with rfl | rfl
        · exact hframe
        · cases hframe
      have hheard (hh : Heard first W fin d v) := hh.move hmove hW
        (fun frame hframe => hcarried frame (hmem frame hframe)) hfollow.2
      refine ⟨?_, fun hh => (hheard (hopen hh)).1, ?_, fun hw => hph (hmove.phase_of_wait hwait hw)⟩
      · rcases hears with hw | hh
        · exact hw.move hmove hwait
            (fun hp frame hframe => hquiet (hph hp) frame (hmem frame hframe))
            fun frame hframe => hopens frame (hmem frame hframe)
        · exact .inr (hheard hh).1
      · rcases h with hw₀ | hh₀
        · exact hw₀.follows d v'.rx
        · exact hfollow.trans (hheard (hopen hh₀)).2
    · rintro v w d data - - ⟨hears, hopen, hfollow, hph⟩
      refine ⟨?_, hopen, hfollow, hph⟩
      exact hears.imp_left fun h => { h with }
    · rintro v w d n ⟨hears, hopen, hfollow, hph⟩
      have hheard (hh : Heard first W fin d v) :
          Heard first W fin (d ++ v.rx.readBuf.take n) { v with rx := (v.rx.takeRead n).1 } ∧
          RxState.Follows d v.rx (d ++ v.rx.readBuf.take n) (v.rx.takeRead n).1 := by
        obtain ⟨hp, B, hB⟩ := hh
        obtain ⟨hB', hfollow⟩ := hB.takeRead n
        exact ⟨⟨hp, B, hB'⟩, hfollow⟩
      refine ⟨?_, fun hh => (hheard (hopen hh)).1, ?_, hph⟩
      · rcases hears with hw | hh
        · refine .inl ⟨hw.phase, hw.owed, hw.greeting, ?_, ?_, hw.6, hw.7, hw.8, hw.9, hw.10⟩
          · rw [hw.taken_eq, hw.readBuf, take_nil, append_nil]
          · show v.rx.readBuf.drop n = []
            rw [hw.readBuf, drop_nil]
        · exact .inr (hheard hh).1
      · rcases hears with hw | hh
        · exact hfollow.trans (hw.follows _ _)
        · exact hfollow.trans (hheard hh).2
  exact ⟨hkey.1, hkey.2.1, hkey.2.2.1⟩

end Receiver

/-! ### The sender's end -/

/-- What a sender has had acknowledged its receiver has received, and its FIN flags are
in step with its offsets until the receiver has seen the end. -/
def Trails (progress : ℕ) (eof : Bool) : Ledger := fun W una nxt high c =>
  una ≤ progress ∧ (eof = true ∨ FinBooks 0 W una nxt high c)

namespace Trails

variable {W : List UInt8} {una nxt : ℕ} {high : Option ℕ} {c : Core} {p p' : ℕ} {eof eof' : Bool}

theorem mono (h : Trails p eof W una nxt high c) (hp : p ≤ p') (heof : eof = true → eof' = true) :
    Trails p' eof' W una nxt high c :=
  ⟨h.1.trans hp, h.2.imp_left heof⟩

/-- An acknowledgement that covers the FIN comes from a receiver that has seen the
end. -/
theorem not_acksRewoundFin (hacc : Accounts first.toNat W una nxt high c) (huna : una ≤ p)
    (hp : p ≤ W.length) (hW : W.length < 2 ^ 31) {k : ℕ} (hk : k ≤ p) :
    ¬c.AcksRewoundFin (pos first.toNat k) := by
  rintro ⟨hre, -, hgt, top, htop, hge⟩
  rw [hacc.rewindHigh] at htop
  obtain ⟨j, hj, rfl⟩ := Option.map_eq_some_iff.mp htop
  obtain ⟨j', hj', hend⟩ := hacc.rewindFin hre
  obtain rfl : j = j' := Option.some.inj (hj.symm.trans hj')
  have hnear := hacc.high_lt j hj
  rw [hacc.sndUna, gt_pos (by omega) (by omega)] at hgt
  have hk' := of_decide_eq_true hgt
  rw [geq_pos (by omega) (by omega)] at hge
  have := of_decide_eq_true hge
  omega

/-- **Every entry keeps the ledger**, if acknowledgements do not run ahead. -/
theorem entry {f : Option Frame} {una' nxt' : ℕ} {high' : Option ℕ} {c' : Core}
    (hentry : Entry first.toNat f una nxt high c una' nxt' high' c')
    (hacc : Accounts first.toNat W una nxt high c) (h : Trails p eof W una nxt high c)
    (hp : p ≤ W.length + eof.toNat) (hW : W.length < 2 ^ 31)
    (hack : ∀ frame ∈ f, Acked first p frame) : Trails p eof W una' nxt' high' c' := by
  obtain ⟨huna, hfin⟩ := h
  have htoNat : eof.toNat ≤ 1 := toNat_le eof
  have hname (i : UInt32) (ack win : UInt32) (sacks : SackVec)
      (hf : f = some (.ack i ack win sacks)) : ∃ k ≤ p, ack = pos first.toNat k := by
    obtain ⟨k, hk, hack⟩ := hack _ hf
    exact ⟨k, hk, hack.trans (RxTrace.pos_base_eq first k)⟩
  refine ⟨?_, ?_⟩
  · cases hentry with
    | advance k i win sacks hframe hk htop =>
      have := hacc.topOffset_lt
      obtain ⟨k', hk', heq⟩ := hname i _ win sacks hframe
      rw [pos_inj (by omega) (by omega)] at heq
      omega
    | _ => exact huna
  · cases heof : eof with
    | true => exact .inl rfl
    | false =>
      rw [heof] at hfin hp
      have hbooks := hfin.resolve_left false_ne_true
      refine .inr (hbooks.entry hentry hacc le_rfl ?_)
      rintro ⟨i, ack, win, sacks, hf, -, hcov⟩
      obtain ⟨k, hk, rfl⟩ := hname i ack win sacks hf
      exact absurd hcov (not_acksRewoundFin hacc huna hp hW hk)

/-- **The sender's end over one call.** -/
theorem step (hp : p ≤ t.written.length + eof.toNat)
    (hlen : (t.step op).written.length < 2 ^ 31) (hack : ∀ frame ∈ op.arrived, Acked first p frame)
    (h : Books (Trails p eof) first t.written t.engine.view) :
    Books (Trails p eof) first (t.step op).written (t.step op).engine.view := by
  let P (v : View) (w _ : List UInt8) : Prop := w.length < 2 ^ 31 →
    p ≤ w.length + eof.toNat ∧ Books (Trails p eof) first w v
  have hopened (w : List UInt8) (c : Core) (hs : c.finSent = false) (ha : c.finAcked = false) :
      Trails p eof w 0 0 none c := ⟨Nat.zero_le _, .inr (.opened hs ha)⟩
  have hkey : P (t.step op).engine.view (t.step op).written (t.step op).delivered := by
    refine Trace.step_invariant (P := P) ?_ ?_ ?_ fun _ => ⟨hp, h⟩
    · intro f v v' w d hf hmove hP hw
      obtain ⟨hp, hbooks⟩ := hP hw
      refine ⟨hp, hbooks.move (hopened w) (fun hentry hacc hled => ?_) hmove⟩
      refine hled.entry hentry hacc hp hw fun frame hframe => ?_
      rcases hf with rfl | rfl
      · exact hack frame hframe
      · cases hframe
    · intro v w d data _ hopen hP hw
      rw [length_append] at hw ⊢
      obtain ⟨hp, hbooks⟩ := hP (by omega)
      refine ⟨by omega, hbooks.write (fun hacc hled => ?_) hopen⟩
      exact ⟨hled.1, hled.2.imp_right fun hfin => hfin.write hacc hopen data⟩
    · intro v w d n hP hw
      exact ⟨(hP hw).1, (hP hw).2.read n⟩
  exact (hkey hlen).2

end Trails

/-- **What a sender emits is true.** -/
theorem Books.carried {W : List UInt8} {v v' : View} {p : ℕ} {eof : Bool}
    (h : Books (Trails p eof) first W v') (hf : Emits v v' f) :
    Carried first W v'.core.finRequested eof f := by
  have hsegs {b : Body} (hb : b ∈ v'.core.segs) : ∃ una nxt high,
      Accounts first.toNat W una nxt high v'.core ∧ Trails p eof W una nxt high v'.core := by
    rcases h with ⟨-, -, h⟩ | ⟨una, nxt, high, -, h, -, hq⟩
    · rw [h.segs] at hb
      cases hb
    · exact ⟨una, nxt, high, h, hq⟩
  cases hf with
  | data b win hphase hb hfin =>
    obtain ⟨una, nxt, high, hacc, -⟩ := hsegs hb
    obtain ⟨o, htile, -⟩ := hacc.tile_of_mem hb
    exact ⟨o, htile.seq.trans (RxTrace.pos_base_eq first o).symm, htile.data hfin⟩
  | fin b hphase hb hfin =>
    obtain ⟨una, nxt, high, hacc, -, hend⟩ := hsegs hb
    refine hend.imp_right fun hbooks => ?_
    obtain ⟨hseq, hreq⟩ := hbooks.fin_of_mem hacc hb hfin
    exact ⟨hreq, hseq.trans (RxTrace.pos_base_eq first _).symm⟩
  | _ => trivial

/-! ### One direction -/

/-- One direction, from the sender `s` to the receiver `r`: both ends, and what the
cells of both can say about it. -/
structure Direction (wait : Phase) (first : UInt32) (s r : Trace) : Prop where
  sender : Books (Trails (r.engine.rx.progress r.delivered) r.engine.rx.eof) first s.written
    s.engine.view
  receiver : Hears wait first s.written s.engine.tx.finRequested r.delivered r.engine.view
  carried : ∀ f, s.Says f → Carried first s.written s.engine.tx.finRequested r.engine.rx.eof f
  acked : ∀ f, r.Says f → Acked first (r.engine.rx.progress r.delivered) f

/-- What was accepted stays accepted. -/
theorem Trace.written_isPrefix_step (t : Trace) (op : Op) :
    t.written <+: (t.step op).written := by
  rcases t.step_cases op with ⟨-, hw, -⟩ | ⟨data, -, -, -, -, hw, -⟩ | ⟨n, -, hw, -⟩
  · simp only [hw, prefix_rfl]
  · rw [hw]
    exact prefix_append _ _
  · simp only [hw, prefix_rfl]

/-- **In order and exactly once**: the bytes read at `r` are a prefix of the bytes `s`
accepted, and at the end of the stream they are all of them, after a half-close. -/
def Trace.InOrder (r s : Trace) : Prop :=
  r.delivered <+: s.written ∧
    (r.engine.isEof = true → s.engine.tx.finRequested = true ∧ r.delivered = s.written)

instance (r s : Trace) : Decidable (r.InOrder s) := by
  unfold Trace.InOrder
  infer_instance

namespace Direction

variable {wait : Phase} {s r : Trace}

/-- The receiver is not past the end. -/
theorem progress_le (h : Direction wait first s r) :
    r.engine.rx.progress r.delivered ≤ s.written.length + r.engine.rx.eof.toNat := by
  rcases h.receiver with hw | ⟨-, B, hB⟩
  · rw [progress, show r.engine.rx.eof = false from hw.eof, hw.taken_eq,
      show r.engine.rx.readBuf = [] from hw.readBuf]
    exact Nat.zero_le _
  · exact hB.progress_le

/-- What the sender does next does not undo what the receiver knows. -/
theorem heard_send (op : Op)
    (h : Heard first s.written s.engine.tx.finRequested r.delivered r.engine.view) :
    Heard first (s.step op).written (s.step op).engine.tx.finRequested r.delivered
      r.engine.view := by
  obtain ⟨hph, B, hB⟩ := h
  exact ⟨hph, B, hB.grow (s.written_isPrefix_step op) (s.step_keeps op).2.1⟩

/-- **A call on the sender** keeps the direction. -/
theorem send (h : Direction wait first s r) (hfit : Fitting (s.step op).engine.view)
    (hlen : (s.step op).written.length < 2 ^ 31) (harr : ∀ f ∈ op.arrived, r.Says f) :
    Direction wait first (s.step op) r := by
  have hpre := s.written_isPrefix_step op
  have hkeep := (s.step_keeps op).2.1
  have hsender := Trails.step h.progress_le hlen (fun f hf => h.acked f (harr f hf)) h.sender
  refine ⟨hsender, ?_, fun f hf => ?_, h.acked⟩
  · exact h.receiver.imp_right fun hh => heard_send op hh
  · rcases Trace.says_step hfit hf with hold | ⟨hnew, -⟩
    · exact (h.carried f hold).grow hpre hkeep id
    · exact hsender.carried hnew

/-- **A call on the receiver** keeps the direction, as long as neither DATA nor FIN
reaches it before the handshake. -/
theorem receive (h : Direction wait first s r) (hwait : wait = .listen ∨ wait = .synSent)
    (hfit : Fitting (r.step op).engine.view) (hlen : s.written.length < 2 ^ 31)
    (harr : ∀ f ∈ op.arrived, s.Says f)
    (hquiet : r.engine.phase = wait → ∀ f ∈ op.arrived, f.eliciting = false)
    (hopens : ∀ f ∈ op.arrived, Opens wait first f) :
    Direction wait first s (r.step op) ∧
      (Heard first s.written s.engine.tx.finRequested r.delivered r.engine.view →
        Heard first s.written s.engine.tx.finRequested (r.step op).delivered
          (r.step op).engine.view) := by
  obtain ⟨hreceiver, hheard, hfollow⟩ := Hears.step hwait hlen
    (fun f hf => h.carried f (harr f hf)) hquiet hopens h.receiver
  refine ⟨⟨?_, hreceiver, fun f hf => ?_, fun f hf => ?_⟩, hheard⟩
  · exact h.sender.imp fun _ hled => hled.mono hfollow.1 hfollow.2
  · exact (h.carried f hf).grow (prefix_refl _) (fun hfin => ⟨hfin, rfl⟩) hfollow.2
  · rcases Trace.says_step hfit hf with hold | ⟨hnew, -, -, -⟩
    · exact (h.acked f hold).mono hfollow.1
    · cases hnew with
      | ack win sacks howed hphase hnxt =>
        -- an endpoint that waits owes nothing
        rcases h.receiver with hw | ⟨-, B, hB⟩
        · exact absurd (hw.owed howed) hphase
        · exact ⟨_, hfollow.1, hnxt.trans hB.rcvNxt⟩
      | _ => trivial

/-- What was read is a prefix of what was written, and the end is reported only after
a half-close and with everything read. -/
theorem inOrder (h : Direction wait first s r) : r.InOrder s := by
  rcases h.receiver with hw | ⟨-, B, hB⟩
  · refine ⟨?_, fun he => ?_⟩
    · rw [hw.taken_eq]
      exact nil_prefix
    · have heof := (and_eq_true_iff.mp he).1
      rw [show r.engine.rx.eof = false from hw.eof] at heof
      cases heof
  · refine ⟨(prefix_append _ _).trans hB.isPrefix, fun he => ?_⟩
    obtain ⟨heof, hempty⟩ := and_eq_true_iff.mp he
    obtain ⟨hall, hfin⟩ := hB.eof heof
    have hnil : r.engine.view.rx.readBuf = [] := isEmpty_iff.mp hempty
    rw [hnil, append_nil] at hall
    exact ⟨hfin, hall⟩

end Direction

/-! ### Two endpoints and the network -/

/-- The cell a call delivers. -/
def Op.cell : Op → Option (List UInt8)
  | .onCell cell _ => some cell
  | _ => none

/-- The two ends of one stream. -/
structure Net where
  initiator : Trace
  responder : Trace

namespace Net

/-- Both ends before the first call. -/
def start (streamId : UInt32) (cfgA cfgB : Config) (nowA nowB : ℕ) (issA issB : UInt32) : Net where
  initiator := Trace.start (Role.initiator.engine streamId cfgA nowA issA)
  responder := Trace.start (Role.responder.engine streamId cfgB nowB issB)

/-- A call on one of the ends. -/
def step (n : Net) : Role × Op → Net
  | (.initiator, op) => { n with initiator := n.initiator.step op }
  | (.responder, op) => { n with responder := n.responder.step op }

variable (n : Net)

/-- A sequence of calls. -/
def run (calls : List (Role × Op)) : Net := calls.foldl step n

/-- The end a call's cells come from. -/
def peer : Role → Trace
  | .initiator => n.responder
  | .responder => n.initiator

/-- The network delivers, at any time and any number of times, cells that the other end
has emitted. -/
def Delivers (c : Role × Op) : Prop := ∀ cell ∈ c.2.cell, cell ∈ (n.peer c.1).emitted

instance (n : Net) (c : Role × Op) : Decidable (n.Delivers c) :=
  inferInstanceAs (Decidable (∀ cell ∈ c.2.cell, cell ∈ (n.peer c.1).emitted))

/-- A DATA or FIN cell reaches an initiator that still waits for its SYN_ACK. -/
def early (c : Role × Op) : Bool :=
  decide (c.1 = .initiator) && decide (n.initiator.engine.phase = .synSent) &&
    c.2.arrived.any Frame.eliciting

/-- The responder knows where the initiator's direction starts. -/
def Met (issA : UInt32) (n : Net) : Prop :=
  Heard (issA + 1) n.initiator.written n.initiator.engine.tx.finRequested n.responder.delivered
    n.responder.engine.view

/-- **The invariant of the stream**: both directions, and a handshake in which the
initiator is ahead of the responder in nothing. -/
structure Agrees (issA issB : UInt32) (n : Net) : Prop where
  forth : Direction .listen (issA + 1) n.initiator n.responder
  back : Direction .synSent issB n.responder n.initiator
  joined : n.initiator.engine.phase = .established → n.Met issA
  spoke : ∀ f, n.initiator.Says f → f.eliciting = true → n.Met issA
  syn : ∀ i isn win, n.initiator.Says (.syn i isn win) → isn = issA
  synAck : ∀ i isn win ack, n.responder.Says (.synAck i isn win ack) → isn = issB ∧ n.Met issA
  issA_eq : n.initiator.engine.view.iss = issA
  issB_eq : n.responder.engine.view.iss = issB
  fitA : Fitting n.initiator.engine.view
  fitB : Fitting n.responder.engine.view

/-- A frame that arrives is one the other end has sent. -/
theorem Delivers.says {n : Net} {role : Role} {op : Op} (h : n.Delivers (role, op)) :
    ∀ f ∈ op.arrived, (n.peer role).Says f := by
  intro f hf
  cases op with
  | onCell cell now => exact ⟨cell, h cell rfl, hf⟩
  | _ => exact absurd hf (by simp [Op.arrived])

end Net

/-- The initial sequence number is fixed. -/
theorem Trace.iss_step (t : Trace) (op : Op) :
    (t.step op).engine.view.iss = t.engine.view.iss := by
  rcases t.step_cases op with ⟨hmoves, -⟩ | ⟨data, -, -, -, hv, -⟩ | ⟨n, hmoves, -⟩
  · exact hmoves.keeps.2.2.1
  · rw [hv]
  · exact hmoves.keeps.2.2.1

/-- An endpoint is established by a SYN_ACK, or by a SYN if it was listening. -/
theorem Trace.established_step {t : Trace} {op : Op} (h : (t.step op).engine.phase = .established) :
    t.engine.phase = .established ∨ t.engine.phase = .listen ∨
      ∃ i isn win ack, op.arrived = some (.synAck i isn win ack) := by
  refine (Trace.step_invariant (P := fun v _ _ => (v.phase = .established → _) ∧
    (v.phase = .listen → t.engine.phase = .listen)) ?_ ?_ ?_ ⟨.inl, id⟩).1 h
  · rintro f v v' w d hf hmove ⟨hest, hlis⟩
    refine ⟨fun hph => ?_, fun hph => hlis (hmove.phase_of_wait (.inl rfl) hph)⟩
    cases hmove with
    | close => exact Phase.noConfusion hph
    | syn _ isn win hp => exact .inr (.inl (hlis hp))
    | synAck _ isn win hp =>
      rcases hf with hf | hf
      · exact .inr (.inr ⟨_, _, _, _, hf.symm⟩)
      · cases hf
    | _ => exact hest hph
  · rintro v w d data - - hP
    exact hP
  · rintro v w d n hP
    exact hP

namespace Net

namespace Agrees

variable {issA issB : UInt32} {n : Net}

/-- The invariant holds before the first call. -/
theorem start (streamId : UInt32) {cfgA cfgB : Config} (nowA nowB : ℕ) (issA issB : UInt32)
    (hA : cfgA.mss ≤ wireMss) (hB : cfgB.mss ≤ wireMss) :
    Agrees issA issB (Net.start streamId cfgA cfgB nowA nowB issA issB) := by
  have hquiet (e : StreamEngine) (f : Frame) : ¬(Trace.start e).Says f := by
    rintro ⟨cell, hcell, -⟩
    exact absurd hcell not_mem_nil
  have hwindow (cfg : Config) : (StreamEngine.newRx cfg).window.toNat < 2 ^ 31 := by
    have hle : (StreamEngine.newRx cfg).window ≤ maxInflightBytes := min_le_right _ _
    have := UInt32.le_iff_toNat_le.mp hle
    exact this.trans_lt (by decide)
  have hopened (p : ℕ) (eof : Bool) (c : Core) (hs : c.finSent = false) (ha : c.finAcked = false) :
      Trails p eof [] 0 0 none c := ⟨Nat.zero_le _, .inr (.opened hs ha)⟩
  refine ⟨⟨?_, ?_, fun f hf => absurd hf (hquiet _ f), fun f hf => absurd hf (hquiet _ f)⟩,
    ⟨?_, ?_, fun f hf => absurd hf (hquiet _ f), fun f hf => absurd hf (hquiet _ f)⟩,
    fun hph => Phase.noConfusion hph, fun f hf => absurd hf (hquiet _ f),
    fun i isn win hf => absurd hf (hquiet _ _), fun i isn win ack hf => absurd hf (hquiet _ _),
    rfl, rfl, Fitting.start .initiator streamId nowA issA hA,
    Fitting.start .responder streamId nowB issB hB⟩
  · exact .start .initiator streamId cfgA nowA issA (hopened _ _)
  · exact .inl ⟨.inl rfl, nofun, rfl, rfl, rfl, rfl, rfl, rfl,
      rfl, hwindow cfgB⟩
  · exact .start .responder streamId cfgB nowB issB (hopened _ _)
  · exact .inl ⟨.inl rfl, nofun, rfl, rfl, rfl, rfl, rfl, rfl,
      rfl, hwindow cfgA⟩

/-- An initiator never listens. -/
theorem not_listen (h : Agrees issA issB n) : n.initiator.engine.phase ≠ .listen := by
  intro hlis
  rcases h.back.receiver with hw | ⟨hph, -⟩
  · have hph := hw.phase
    rw [show n.initiator.engine.view.phase = .listen from hlis] at hph
    exact absurd hph (by decide)
  · rw [show n.initiator.engine.view.phase = .listen from hlis] at hph
    exact absurd hph (by decide)

/-- **A call on the initiator** keeps the invariant. -/
theorem step_initiator (h : Agrees issA issB n) (hnet : n.Delivers (.initiator, op))
    (hcond : n.early (.initiator, op) = false)
    (hlenA : (n.initiator.step op).written.length < 2 ^ 31)
    (hlenB : n.responder.written.length < 2 ^ 31) :
    Agrees issA issB { n with initiator := n.initiator.step op } := by
  have harr := hnet.says
  have hfit := h.fitA.step op
  have hiss : (n.initiator.step op).engine.view.iss = issA :=
    (n.initiator.iss_step op).trans h.issA_eq
  have hmet (hm : n.Met issA) : Met issA { n with initiator := n.initiator.step op } :=
    Direction.heard_send op hm
  have hquiet (hph : n.initiator.engine.phase = .synSent) :
      ∀ f ∈ op.arrived, f.eliciting = false := by
    intro f hf
    rw [early, hph, show op.arrived = some f from hf] at hcond
    simpa using hcond
  have hopens : ∀ f ∈ op.arrived, Opens .synSent issB f := by
    intro f hf
    cases f with
    | synAck i isn win ack => exact fun _ => (h.synAck i isn win ack (harr _ hf)).1
    | syn i isn win => exact fun hw => Phase.noConfusion hw
    | _ => trivial
  have hjoined (hph : (n.initiator.step op).engine.phase = .established) :
      Met issA { n with initiator := n.initiator.step op } := by
    rcases Trace.established_step hph with hest | hlis | ⟨i, isn, win, ack, hf⟩
    · exact hmet (h.joined hest)
    · exact absurd hlis h.not_listen
    · exact hmet (h.synAck i isn win ack (harr _ hf)).2
  refine ⟨h.forth.send hfit hlenA harr, ?_, hjoined, fun f hf hel => ?_, fun i isn win hf => ?_,
    fun i isn win ack hf => ?_, hiss, h.issB_eq, hfit, h.fitB⟩
  · exact (h.back.receive (.inr rfl) hfit hlenB harr hquiet hopens).1
  · rcases Trace.says_step hfit hf with hold | ⟨hnew, -⟩
    · exact hmet (h.spoke f hold hel)
    · cases hnew with
      | data b win hph | fin b hph => exact hjoined hph
      | _ => exact absurd hel false_ne_true
  · rcases Trace.says_step hfit hf with hold | ⟨hnew, -⟩
    · exact h.syn i isn win hold
    · cases hnew
      exact hiss
  · obtain ⟨hisn, hm⟩ := h.synAck i isn win ack hf
    exact ⟨hisn, hmet hm⟩

/-- **A call on the responder** keeps the invariant. -/
theorem step_responder (h : Agrees issA issB n) (hnet : n.Delivers (.responder, op))
    (hlenA : n.initiator.written.length < 2 ^ 31)
    (hlenB : (n.responder.step op).written.length < 2 ^ 31) :
    Agrees issA issB { n with responder := n.responder.step op } := by
  have harr := hnet.says
  have hfit := h.fitB.step op
  have hiss : (n.responder.step op).engine.view.iss = issB :=
    (n.responder.iss_step op).trans h.issB_eq
  have hquiet (hph : n.responder.engine.phase = .listen) :
      ∀ f ∈ op.arrived, f.eliciting = false := by
    intro f hf
    rw [eq_false_iff]
    intro hel
    -- the initiator has spoken, so the responder is past listening
    obtain ⟨hpast, -⟩ := h.spoke f (harr f hf) hel
    rw [show n.responder.engine.view.phase = .listen from hph] at hpast
    exact absurd hpast (by decide)
  have hopens : ∀ f ∈ op.arrived, Opens .listen (issA + 1) f := by
    intro f hf
    cases f with
    | syn i isn win => exact fun _ => congrArg (· + 1) (h.syn i isn win (harr _ hf))
    | synAck i isn win ack => exact fun hw => Phase.noConfusion hw
    | _ => trivial
  obtain ⟨hforth, hmet⟩ := h.forth.receive (.inl rfl) hfit hlenA harr hquiet hopens
  refine ⟨hforth, h.back.send hfit hlenB harr, fun hph => hmet (h.joined hph),
    fun f hf hel => hmet (h.spoke f hf hel), h.syn, fun i isn win ack hf => ?_, h.issA_eq, hiss,
    h.fitA, hfit⟩
  rcases Trace.says_step hfit hf with hold | ⟨hnew, -⟩
  · obtain ⟨hisn, hm⟩ := h.synAck i isn win ack hold
    exact ⟨hisn, hmet hm⟩
  · cases hnew with
    | synAck win hgreet =>
      refine ⟨hiss, hmet ?_⟩
      -- a SYN_ACK is due only after a SYN
      rcases h.forth.receiver with hw | hh
      · rw [hw.greeting] at hgreet
        cases hgreet
      · exact hh

end Agrees

/-- **The stream delivers in order and exactly once**, both ways, whatever the network
loses, repeats or reorders, along every run in which no DATA or FIN cell reaches the
initiator before its SYN_ACK. -/
theorem delivers_in_order_exactly_once (streamId : UInt32) (cfgA cfgB : Config) (nowA nowB : ℕ)
    (issA issB : UInt32) (hmssA : cfgA.mss ≤ wireMss) (hmssB : cfgB.mss ≤ wireMss)
    (calls : List (Role × Op)) (n : Net)
    (hn : n = (start streamId cfgA cfgB nowA nowB issA issB).run calls)
    (hcalls : Run.Along step (fun n c => n.Delivers c ∧ n.early c = false)
      (start streamId cfgA cfgB nowA nowB issA issB) calls)
    (hlenA : n.initiator.written.length < 2 ^ 31) (hlenB : n.responder.written.length < 2 ^ 31) :
    n.initiator.InOrder n.responder ∧ n.responder.InOrder n.initiator := by
  -- nothing written is ever taken back, so the bounds hold along the whole run
  let P (n : Net) : Prop := n.initiator.written.length < 2 ^ 31 →
    n.responder.written.length < 2 ^ 31 → Agrees issA issB n
  have hkey : P ((start streamId cfgA cfgB nowA nowB issA issB).run calls) := by
    refine Run.invariant_along (P := P) ?_
      (fun _ _ => Agrees.start streamId nowA nowB issA issB hmssA hmssB) hcalls
    rintro n ⟨role, op⟩ ⟨hnet, hcond⟩ hP
    cases role with
    | initiator =>
      intro hA hB
      have hbefore := ((n.initiator.written_isPrefix_step op).length_le).trans_lt hA
      exact (hP hbefore hB).step_initiator hnet hcond hA hB
    | responder =>
      intro hA hB
      have hbefore := ((n.responder.written_isPrefix_step op).length_le).trans_lt hB
      exact (hP hA hbefore).step_responder hnet hA hB
  rw [← hn] at hkey
  have hagrees := hkey hlenA hlenB
  exact ⟨hagrees.back.inOrder, hagrees.forth.inOrder⟩

/-- The responder answers a SYN and sends one byte and its FIN. -/
def answered : List (Role × Op) :=
  [(.initiator, .pollTransmit 0), (.responder, .write [7]), (.responder, .finish),
    (.responder, .onCell (Frame.syn 3 5 16758784).encode 1), (.responder, .pollTransmit 1),
    (.responder, .pollTransmit 1), (.responder, .pollTransmit 1)]

/-- The FIN arrives before the byte, and the byte twice. -/
theorem delivers_in_order_exactly_once_reordered :
    let n := (start 3 Config.default Config.default 0 0 5 0).run (answered ++
      [(.initiator, .onCell (Frame.synAck 3 0 16758784 6).encode 2),
        (.initiator, .onCell (Frame.fin 3 1).encode 3),
        (.initiator, .onCell (Frame.data 3 0 16758784 [7]).encode 4),
        (.initiator, .onCell (Frame.data 3 0 16758784 [7]).encode 5), (.initiator, .read 10)])
    n.initiator.delivered = [7] ∧ n.initiator.engine.isEof = true ∧
      n.initiator.InOrder n.responder ∧ n.responder.InOrder n.initiator :=
  ⟨by decide +kernel, by decide +kernel,
    delivers_in_order_exactly_once 3 Config.default Config.default 0 0 5 0 (by decide) (by decide)
      _ _ rfl (by decide +kernel) (by decide +kernel) (by decide +kernel)⟩

/-- **The byte delivered twice**: the DATA cell overtakes the SYN_ACK, is taken as if the
direction started at zero, and is taken again when a second copy arrives after the
SYN_ACK has set `rcvNxt` back. -/
theorem byte_delivered_twice_before_synAck :
    let calls := answered ++
      [(.initiator, .onCell (Frame.data 3 0 16758784 [7]).encode 2),
        (.initiator, .onCell (Frame.synAck 3 0 16758784 6).encode 3),
        (.initiator, .onCell (Frame.data 3 0 16758784 [7]).encode 4), (.initiator, .read 10)]
    let n := (start 3 Config.default Config.default 0 0 5 0).run calls
    Run.Along step (fun n c => n.Delivers c) (start 3 Config.default Config.default 0 0 5 0) calls ∧
      n.responder.written = [7] ∧ n.initiator.delivered = [7, 7] ∧
      ¬n.initiator.InOrder n.responder := by
  decide +kernel

end Net

end OnionStream

end VeilNetwork
