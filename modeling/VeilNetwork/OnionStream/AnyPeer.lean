import VeilNetwork.OnionStream.Delivery

/-!
# An endpoint against any peer

What one endpoint keeps to whatever it is fed: cells of a hostile peer, of another
stream, forged or garbled. The truth of what it says does not rest on the peer. An
acknowledgement of bytes that were never sent is above the ceiling and moves nothing
(`Accounts.ack_eq`), so the books hold, and every segment is cut from what was written. A FIN
is at the end of it, or past the end by no more than the rewound FINs that were covered late
(`FinBooks`).
A phase is left for a later one only, and a closed endpoint is done: it takes no more
bytes from either side and answers with nothing but the cells of the handshake or a
reset.
-/

namespace VeilNetwork.OnionStream

open List Blocks

/-! ### What the cells of one endpoint say -/

/-- A frame of the stream `id` that fits a cell and tells the truth about what was
written: DATA is what stands at its offset, and a FIN is at the end of it, or past it by
no more than `n`. -/
def Frame.Truthful (first id : UInt32) (W : List UInt8) (fin : Bool) (n : ℕ) (f : Frame) : Prop :=
  f.streamId = id ∧ f.encode.length ≤ maxCell ∧
    match f with
    | .data _ seq _ payload =>
      payload ≠ [] ∧ ∃ o, seq = first + UInt32.ofNat o ∧ SegmentOf W o payload
    | .fin _ seq => fin = true ∧ ∃ o ≤ n, seq = first + UInt32.ofNat (W.length + o)
    | _ => True

theorem Frame.Fits.length_encode_le {f : Frame} (h : f.Fits) : f.encode.length ≤ maxCell := by
  cases f with
  | data i seq win payload =>
    have hlen : payload.length ≤ 16366 := h
    simp [encode, putU32, putU16, maxCell]
    omega
  | ack i a win sacks =>
    have hlen : sacks.ranges.length ≤ 8 := sacks.length_le
    simp [encode, putU32, putSacks, length_flatMap, maxCell]
    omega
  | _ => simp [encode, putU32, maxCell]

variable {first id : UInt32} {W : List UInt8} {fin fin' : Bool} {n n' : ℕ} {f : Frame}

/-- What is written later leaves it true: nothing is, once the end was asked for. -/
theorem Frame.Truthful.grow {W' : List UInt8} (h : f.Truthful first id W fin n) (hpre : W <+: W')
    (hkeep : fin = true → fin' = true ∧ W' = W) (hle : n ≤ n') :
    f.Truthful first id W' fin' n' := by
  obtain ⟨hid, hlen, hsays⟩ := h
  refine ⟨hid, hlen, ?_⟩
  cases f with
  | data i seq win payload =>
    obtain ⟨hne, o, hseq, hseg⟩ := hsays
    obtain ⟨rest, rfl⟩ := hpre
    exact ⟨hne, o, hseq, hseg.append rest⟩
  | fin i seq =>
    obtain ⟨hfin, o, ho, hseq⟩ := hsays
    obtain ⟨hfin', rfl⟩ := hkeep hfin
    exact ⟨hfin', o, ho.trans hle, hseq⟩
  | _ => trivial

variable {v v' : View}

/-- **What is emitted out of the books is true.** -/
theorem Emits.truthful (hfit : Fitting v') (h : Closing n first W v') (hf : Emits v v' f) :
    f.Truthful first v'.streamId W v'.core.finRequested n := by
  have hsegs {b : Body} (hb : b ∈ v'.core.segs) : ∃ una nxt high,
      Accounts first.toNat W una nxt high v'.core ∧ FinBooks n W una nxt high v'.core := by
    rcases h with ⟨-, -, h⟩ | ⟨una, nxt, high, -, h, -, hfin⟩
    · rw [h.segs] at hb
      cases hb
    · exact ⟨una, nxt, high, h, hfin⟩
  have hfits : f.Fits := by
    cases hf with
    | data b win hphase hb => exact hfit.segs b hb
    | _ => trivial
  refine ⟨?_, hfits.length_encode_le, ?_⟩
  · cases hf <;> rfl
  cases hf with
  | data b win hphase hb hfin =>
    obtain ⟨una, nxt, high, hacc, -⟩ := hsegs hb
    obtain ⟨o, htile, -⟩ := hacc.tile_of_mem hb
    refine ⟨?_, o, htile.seq.trans (pos_toNat first o), htile.data hfin⟩
    have hpos := htile.len_pos
    rw [Body.len_eq hfin] at hpos
    exact ne_nil_of_length_pos hpos
  | fin b hphase hb hfin =>
    obtain ⟨una, nxt, high, hacc, hcount⟩ := hsegs hb
    obtain ⟨o, htile, -, hend⟩ := hacc.tile_of_mem hb
    obtain ⟨d, rfl⟩ := Nat.exists_eq_add_of_le (htile.fin hfin)
    have hnxt := (topOffset_le_iff.mp hcount.topOffset_le).1
    have hlen := htile.len_pos
    refine ⟨?_, d, by omega, htile.seq.trans (pos_toNat first _)⟩
    -- Before the half-close no segment of the flight is a FIN.
    by_contra hopen
    have hnone := (hacc.unfinished (Bool.eq_false_iff.mpr hopen)).2.2.2 b hb
    rw [hnone] at hfin
    cases hfin
  | _ => trivial

namespace Trace

/-- A cell that decodes to a frame, of which it is the encoding, that tells the truth. -/
def Sound (first id : UInt32) (n : ℕ) (t : Trace) (cell : List UInt8) : Prop :=
  ∃ f : Frame, Frame.decode cell = some f ∧ f.encode = cell ∧
    f.Truthful first id t.written t.engine.tx.finRequested n

/-- What an endpoint keeps to, whoever its peer is, after `n` rewound FINs were covered. -/
structure Honest (first id : UInt32) (n : ℕ) (t : Trace) : Prop where
  fit : Fitting t.engine.view
  books : Closing n first t.written t.engine.view
  id_eq : t.engine.streamId = id
  told : ∀ cell ∈ t.emitted, t.Sound first id n cell

theorem Honest.step {t : Trace} (op : Op) (h : Honest first id n t) :
    Honest first id (n + (t.engine.coversRewoundFin op).toNat) (t.step op) := by
  have hkeep := t.step_keeps op
  have hfit := h.fit.step op
  have hbooks := h.books.step op
  have hid := hkeep.1.trans h.id_eq
  have hle : n ≤ n + (t.engine.coversRewoundFin op).toNat := Nat.le_add_right _ _
  have hold : ∀ cell ∈ t.emitted, (t.step op).Sound first id _ cell := fun cell hcell =>
    (h.told cell hcell).imp fun _ hf =>
      ⟨hf.1, hf.2.1, hf.2.2.grow (t.written_isPrefix_step op) hkeep.2.1 hle⟩
  refine ⟨hfit, hbooks, hid, ?_⟩
  rcases t.step_emitted op with hsame | ⟨f, hf, -, -, -, hnew⟩
  · rwa [hsame]
  · rw [hnew]
    refine forall_mem_append.mpr ⟨hold, forall_mem_singleton.mpr ⟨f, ?_, rfl, ?_⟩⟩
    · exact hfit.decode_encode hf
    · exact hid ▸ hf.truthful hfit hbooks

/-- **An endpoint tells the truth to any peer**: whatever cells arrive, every cell it emits
is at most `maxCell` long and decodes to a frame of its stream, DATA carries what was written
at the offset its sequence number names, and a FIN follows a half-close and lies at the
end, or past it by no more than the number of calls that covered a rewound FIN. -/
theorem emitted_cells_truthful (role : Role) (streamId : UInt32) (cfg : Config) (now : ℕ)
    (iss : UInt32) (hmss : cfg.mss ≤ wireMss) (ops : List Op) (t : Trace)
    (ht : t = (Trace.start (role.engine streamId cfg now iss)).run ops) :
    ∀ cell ∈ t.emitted, t.Sound (role.firstSeq iss) streamId
      ((Trace.start (role.engine streamId cfg now iss)).lateFinAcks ops) cell := by
  have hstart : Honest (role.firstSeq iss) streamId ([] : List Op).length
      (Trace.start (role.engine streamId cfg now iss)) := by
    refine ⟨.start role streamId now iss hmss,
      .start role streamId cfg now iss fun _ => FinBooks.opened, ?_, nofun⟩
    cases role <;> rfl
  rw [ht]
  refine (Run.invariant_outputs (R := fun (t : Trace) log =>
    Honest (role.firstSeq iss) streamId log.length t) (fun t op log h => ?_) hstart ops).told
  rw [length_append, length_covers]
  exact h.step op

/-- DATA of a responder that was sent an acknowledgement out of nowhere. -/
theorem emitted_cells_truthful_forged :
    (Frame.data 3 7 16758784 [1, 2, 3]).Truthful 7 3 [1, 2, 3] false 0 := by
  obtain ⟨f, hdec, -, hf⟩ := emitted_cells_truthful .responder 3 .default 0 7 (by decide)
    [.onCell (Frame.syn 3 40 9000).encode 0, .onCell (Frame.ack 3 900 9000 SackVec.new).encode 1,
      .write [1, 2, 3], .pollTransmit 2, .pollTransmit 2] _ rfl
    (Frame.data 3 7 16758784 [1, 2, 3]).encode (by decide +kernel)
  rw [Frame.decode_encode (by decide)] at hdec
  cases hdec
  exact hf

end Trace

/-! ### Phases -/

/-- How far the life of an endpoint is. -/
def Phase.rank : Phase → ℕ
  | .synSent | .listen => 0
  | .established => 1
  | .closed => 2

theorem Move.rank_le {g : Option Frame} (h : Move g v v') : v.phase.rank ≤ v'.phase.rank := by
  cases h with
  | close => cases v.phase <;> simp [Phase.rank]
  | syn _ _ _ hphase | synAck _ _ _ hphase => simp [hphase, Phase.rank]
  | _ => exact le_rfl

/-- A closed endpoint is not moved to take or to send anything. -/
theorem Move.of_closed {g : Option Frame} (h : Move g v v') (hphase : v.phase = .closed) :
    v'.phase = .closed ∧ v'.rx.readBuf = v.rx.readBuf := by
  cases h with
  | close => exact ⟨rfl, rfl⟩
  | data _ _ _ _ hp | fin _ _ hp => exact absurd hphase hp
  | syn _ _ _ hp | synAck _ _ _ hp =>
    rw [hphase] at hp
    cases hp
  | _ => exact ⟨hphase, rfl⟩

namespace Trace

/-- What becomes of a closed endpoint `s`: it stays closed, takes no more bytes from either
side, and emits only the cells of a handshake or a reset. -/
structure Ended (s t : Trace) : Prop where
  phase : t.engine.phase = .closed
  written : t.written = s.written
  received : t.delivered ++ t.engine.rx.readBuf = s.delivered ++ s.engine.rx.readBuf
  emitted : ∃ cells, t.emitted = s.emitted ++ cells ∧
    ∀ cell ∈ cells, cell[1]? ∈ [some Ty.syn, some Ty.synAck, some Ty.rst]

theorem Ended.step {s t : Trace} (op : Op) (h : Ended s t) : Ended s (t.step op) := by
  obtain ⟨hphase, hw, hd⟩ := @step_invariant
    (fun v w d => v.phase = .closed ∧ w = s.written ∧
      d ++ v.rx.readBuf = s.delivered ++ s.engine.rx.readBuf) t op
    (fun _ v v' _ d _ hmove hv => by
      obtain ⟨hphase, hbuf⟩ := hmove.of_closed hv.1
      exact ⟨hphase, hv.2.1, hbuf ▸ hv.2.2⟩)
    (fun _ _ _ _ hopen _ hv => absurd hv.1 hopen)
    (fun v _ d n hv => ⟨hv.1, hv.2.1, by
      rw [← hv.2.2, append_assoc]
      exact congrArg (d ++ ·) (take_append_drop n v.rx.readBuf)⟩)
    ⟨h.phase, h.written, h.received⟩
  obtain ⟨cells, hcells, hty⟩ := h.emitted
  refine ⟨hphase, hw, hd, ?_⟩
  rcases t.step_emitted op with hsame | ⟨f, hf, -, -, -, hnew⟩
  · exact ⟨cells, hsame.trans hcells, hty⟩
  · refine ⟨cells ++ [f.encode], by rw [hnew, hcells, append_assoc],
      forall_mem_append.mpr ⟨hty, forall_mem_singleton.mpr ?_⟩⟩
    rw [Frame.getElem?_encode_one]
    cases hf with
    | data b win hp | fin b hp =>
      rw [hphase] at hp
      cases hp
    | ack win sacks howed hp => exact absurd h.phase hp
    | _ => simp [Frame.ty]

/-- **Phases only advance, and closed is the end**, from any state and under any calls: an
endpoint goes from its opening to established to closed, and a closed one takes no more
bytes from either side and emits only the cells of a handshake or a reset. -/
theorem phases_only_advance (t : Trace) (ops : List Op) :
    t.engine.phase.rank ≤ (t.run ops).engine.phase.rank ∧
      (t.engine.phase = .closed → Ended t (t.run ops)) := by
  refine ⟨?_, fun hphase => ?_⟩
  · refine Run.invariant (P := fun t' : Trace => t.engine.phase.rank ≤ t'.engine.phase.rank)
      (fun t' op h => ?_) le_rfl ops
    exact step_invariant (P := fun v _ _ => t.engine.phase.rank ≤ v.phase.rank)
      (fun _ _ _ _ _ _ hmove hv => hv.trans hmove.rank_le) (fun _ _ _ _ _ _ hv => hv)
      (fun _ _ _ _ hv => hv) h
  · exact Run.invariant (P := Ended t) (fun _ op h => h.step op)
      ⟨hphase, rfl, rfl, [], (append_nil _).symm, nofun⟩ ops

end Trace

end VeilNetwork.OnionStream
