import VeilNetwork.Lib.Run
import VeilNetwork.Session.RealtimeFragments

/-!
# A realtime link

One sender and one receiver of the realtime lane with the network between them: frames are
sealed, either side is rekeyed, and any byte string whatever is handed to the receiver at any
time. That the AEAD cannot be forged is a condition on each datagram handed over: what opens
under a key the receiver holds is a datagram that was sealed under that key.

A datagram is *received* when it is handed over while the receiver holds its key and its
sequence number is still within the window. The invariant says that every assembly holds
chunks of one sealed frame, that the sequence numbers behind them are spent, that the
numbers of a returned frame are all spent, and that a number marked in the window belongs to
a datagram that was received.
-/

namespace VeilNetwork.Session.Realtime

open List Option ReplayWindow

variable {K : Type} [DecidableEq K]

/-! ### The link -/

/-- The steps of a link. -/
inductive LinkOp where
  | encode (frame : Octets) (maxDatagramSize : ℕ)
  | txRekey (rawKey sessionId : FixedBytes 32)
  | rxRekey (rawKey sessionId : FixedBytes 32) (now : ℕ)
  | decode (datagram : Octets) (now : ℕ) (tie : ℕ → ℕ)

/-- Both ends with what happened so far. -/
structure Link (K : Type) where
  tx : Tx K
  rx : Rx K
  now : ℕ
  /-- The calls of `encode_frame`. -/
  calls : ℕ
  /-- The frames sealed, in order. -/
  sent : List (Sent K)
  /-- The datagrams received. -/
  received : List Octets
  /-- The frames returned by `decode_datagram`, in order. -/
  returned : List Octets

instance (rx : Rx K) (now : ℕ) (k : K) : Decidable (rx.Holds now k) :=
  decidable_of_iff (k = rx.cipher ∨ ∃ x ∈ rx.previous, x.1 = k ∧ now < x.2) <| by
    refine or_congr Iff.rfl ⟨?_, ?_⟩
    · rintro ⟨⟨k', deadline⟩, hx, rfl, hlt⟩
      exact ⟨deadline, hx, hlt⟩
    · rintro ⟨deadline, hprev, hlt⟩
      exact ⟨(k, deadline), hprev, rfl, hlt⟩

/-- The sequence number of a datagram is less than 128 behind the highest accepted one. -/
def Rx.inWindow (rx : Rx K) (d : Octets) : Bool :=
  match FragmentHeader.decode d with
  | .ok h => decide (rx.replay.highest < h.sequence + 128)
  | .error _ => false

namespace Link

variable (A : LaneAead K)

def start (rawKey sessionId : FixedBytes 32) (assemblies bytes now : ℕ) : Link K where
  tx := .new A rawKey sessionId
  rx := .withLimits A rawKey sessionId assemblies bytes
  now := now
  calls := 0
  sent := []
  received := []
  returned := []

variable (s : Link K)

/-- The datagram is a genuine one, the receiver holds its key, and it is within the window. -/
def Receivable (d : Octets) (now : ℕ) : Prop :=
  ∃ m ∈ s.sent, d ∈ m.datagrams ∧ s.rx.Holds now m.key ∧ s.rx.inWindow d

instance (s : Link K) (d : Octets) (now : ℕ) : Decidable (s.Receivable d now) :=
  inferInstanceAs (Decidable (∃ _ ∈ _, _))

/-- Seal one frame. -/
def encode (frame : Octets) (maxDatagramSize : ℕ) : Link K :=
  let r := s.tx.encodeFrame A frame maxDatagramSize
  { s with
    tx := r.2
    calls := s.calls + 1
    sent := match r.1 with
      | .ok datagrams => s.sent ++ [.ofCall s.tx frame maxDatagramSize datagrams]
      | .error _ => s.sent }

/-- Hand one datagram to the receiver. -/
def decode (d : Octets) (now : ℕ) (tie : ℕ → ℕ) : Link K :=
  let r := s.rx.decodeDatagram A d now tie
  { s with
    rx := r.2
    now := now
    received := if s.Receivable d now then d :: s.received else s.received
    returned := match r.1 with
      | .ok (some frame) => s.returned ++ [frame]
      | _ => s.returned }

/-- One call. -/
def step : LinkOp → Link K
  | .encode frame maxDatagramSize => s.encode A frame maxDatagramSize
  | .txRekey rawKey sessionId => { s with tx := s.tx.rekey A rawKey sessionId }
  | .rxRekey rawKey sessionId now => { s with rx := s.rx.rekey A rawKey sessionId now, now }
  | .decode d now tie => s.decode A d now tie

/-- The AEAD is not forged: what opens under a key the receiver holds was sealed under it. -/
def Unforged (d : Octets) (now : ℕ) : Prop :=
  ∀ h k p, FragmentHeader.decode d = .ok h → s.rx.Holds now k →
    decryptDatagram A k h.sequence d = some p → ∃ m ∈ s.sent, m.key = k ∧ d ∈ m.datagrams

/-- Fewer than `2^32 - 1` frames, times that do not go back, and no forgery. -/
def Valid : LinkOp → Prop
  | .encode .. => s.calls + 1 < 2 ^ 32 - 1
  | .txRekey .. => True
  | .rxRekey _ _ now => s.now ≤ now
  | .decode d now _ => s.now ≤ now ∧ s.Unforged A d now

/-! ### The frames sealed -/

/-- The sender has not run out of numbers, and the frames sealed have message ids and
sequence numbers of their own, below the next ones. -/
structure Numbered (s : Link K) : Prop where
  seq_pos : 0 < s.tx.nextSequence
  seq_le : s.tx.nextSequence ≤ Saturating.u64Max
  id_pos : 0 < s.tx.nextMessageId
  id_le : s.tx.nextMessageId ≤ s.calls + 1
  wf : ∀ m ∈ s.sent, m.WellFormed A
  id_lt : ∀ m ∈ s.sent, m.messageId < s.tx.nextMessageId
  seq_lt : ∀ m ∈ s.sent, m.firstSequence + m.count ≤ s.tx.nextSequence
  apart : s.sent.Pairwise fun m m' =>
    m.messageId < m'.messageId ∧ m.firstSequence + m.count ≤ m'.firstSequence

variable {A} {s : Link K}

namespace Numbered

variable {m' m : Sent K}

section

variable (h : Numbered A s)

include h

omit [DecidableEq K] in
theorem eq_or_apart (hm : m ∈ s.sent) (hm' : m' ∈ s.sent) :
    m = m' ∨ (m.messageId ≠ m'.messageId ∧ (m.firstSequence + m.count ≤ m'.firstSequence ∨
      m'.firstSequence + m'.count ≤ m.firstSequence)) := by
  have hboth := List.Pairwise.forall_of_forall_of_flip (l := s.sent)
    (R := fun m m' => m = m' ∨ (m.messageId ≠ m'.messageId ∧
      (m.firstSequence + m.count ≤ m'.firstSequence ∨
        m'.firstSequence + m'.count ≤ m.firstSequence)))
    (fun _ _ => .inl rfl) (h.apart.imp fun h => .inr ⟨h.1.ne, .inl h.2⟩)
    (h.apart.imp fun h => .inr ⟨h.1.ne', .inr h.2⟩)
  exact hboth hm hm'

omit [DecidableEq K] in
theorem eq_of_messageId (hm : m ∈ s.sent) (hm' : m' ∈ s.sent) (hid : m.messageId = m'.messageId) :
    m = m' :=
  (h.eq_or_apart hm hm').resolve_right fun hne => hne.1 hid

/-- **A sequence number belongs to one fragment of one frame.** -/
theorem eq_of_sequence {i j : ℕ} (hm : m ∈ s.sent) (hm' : m' ∈ s.sent) (hi : i < m.count)
    (hj : j < m'.count) (hseq : m.firstSequence + i = m'.firstSequence + j) : m = m' ∧ i = j := by
  rcases h.eq_or_apart hm hm' with rfl | ⟨-, happart | happart⟩
  · exact ⟨rfl, by omega⟩
  · omega
  · omega

/-- A datagram belongs to one fragment of one frame. -/
theorem eq_of_packet {i j : ℕ} (hm : m ∈ s.sent) (hm' : m' ∈ s.sent) (hi : i < m.count)
    (hj : j < m'.count) (heq : m.packet A i = m'.packet A j) : m = m' ∧ i = j := by
  have hdecode := (h.wf m hm).decode_packet hi
  rw [heq, (h.wf m' hm').decode_packet hj] at hdecode
  have hheader := Except.ok.inj hdecode
  exact h.eq_of_sequence hm hm' hi hj (congrArg FragmentHeader.sequence hheader).symm

omit [DecidableEq K] in
/-- Sealing a frame keeps the numbering. -/
theorem encode (frame : Octets) (size : ℕ) (hcalls : s.calls + 1 < 2 ^ 32 - 1) :
    Numbered A (s.encode A frame size) := by
  have hle := h.id_le
  have hbump : s.tx.bumpMessageId.nextMessageId = s.tx.nextMessageId + 1 := by
    simp only [Tx.bumpMessageId]
    rw [Nat.mod_eq_of_lt (by omega), if_neg (by omega)]
  obtain ⟨hmono, hmax, hid⟩ := encodeFrame_frame A s.tx frame size
  have hpos := h.seq_pos
  have hidpos := h.id_pos
  unfold Link.encode
  cases hr : s.tx.encodeFrame A frame size with
  | mk r tx =>
    rw [hr] at hmono hmax hid
    dsimp only at hmono hmax hid ⊢
    have hmax := hmax h.seq_le
    cases r with
    | error e =>
      refine ⟨by simp only; omega, hmax, by simp only; omega, by simp only; omega, h.wf,
        fun m hm => ?_, fun m hm => (h.seq_lt m hm).trans hmono, h.apart⟩
      have := h.id_lt m hm
      simp only
      omega
    | ok encoded =>
      obtain ⟨hsealed, hframe, hlen, hchunk, hcount, hnextId, hnextSeq, hseq⟩ :=
        encodeFrame_ok A h.seq_le hr
      refine ⟨by simp only; omega, hmax, by simp only; omega, by simp only; omega,
        fun m hm => ?_, fun m hm => ?_, fun m hm => ?_, ?_⟩
      · rcases mem_append.mp hm with hm | hm
        · exact h.wf m hm
        · rw [mem_singleton.mp hm]
          refine ⟨hsealed, hframe, hlen, hchunk, hcount, hidpos, ?_, hpos, ?_⟩
          · simp only [Sent.ofCall]
            omega
          · simp only [Saturating.u64Max] at hseq
            simp only [Sent.ofCall] at hseq ⊢
            omega
      · simp only
        rcases mem_append.mp hm with hm | hm
        · have := h.id_lt m hm
          omega
        · rw [mem_singleton.mp hm]
          simp only [Sent.ofCall]
          omega
      · rcases mem_append.mp hm with hm | hm
        · exact (h.seq_lt m hm).trans hmono
        · rw [mem_singleton.mp hm]
          exact hnextSeq.ge
      · refine pairwise_append.mpr ⟨h.apart, pairwise_singleton _ _, fun m hm m' hm' => ?_⟩
        rw [mem_singleton.mp hm']
        exact ⟨h.id_lt m hm, h.seq_lt m hm⟩

end

end Numbered

/-! ### The invariant -/

variable (A) in
/-- The assembly holds chunks of one sealed frame, at least one of them, whose datagrams were
received and whose sequence numbers are spent. -/
def Collects (s : Link K) (id : ℕ) (a : Assembly) : Prop :=
  ∃ m ∈ s.sent, m.messageId = id ∧ Rx.Matches m a ∧
    (∃ (i : ℕ) (c : Octets), a.fragments[i]? = some (some c)) ∧
    ∀ (i : ℕ) (c : Octets), a.fragments[i]? = some (some c) →
      m.packet A i ∈ s.received ∧ s.rx.replay.refuses (m.firstSequence + i)

variable (A) in
/-- What holds in every run. -/
structure Inv (s : Link K) : Prop where
  numbered : Numbered A s
  assemblies : Table.All (Collects A s) s.rx.assemblies
  marked : ∀ q, s.rx.replay.Marked q →
    ∃ m ∈ s.sent, ∃ i < m.count, m.firstSequence + i = q ∧ m.packet A i ∈ s.received
  returned : ∃ done : List (Sent K), done.Nodup ∧ done ⊆ s.sent ∧
    s.returned = done.map (·.frame) ∧
    ∀ m ∈ done, ∀ i < m.count, s.rx.replay.refuses (m.firstSequence + i)

variable (A) in
/-- A genuine fragment that the first half of `decode_datagram` lets through: fragment `i`
of `m`, for an empty place of the assembly `a`, with the receiver `rx` after the first half. -/
structure Lets (s : Link K) (d : Octets) (now : ℕ) (m : Sent K) (i : ℕ) (a : Assembly)
    (rx : Rx K) : Prop where
  sent : m ∈ s.sent
  index : i < m.count
  packet : m.packet A i = d
  authenticated : s.rx.authenticate A d now = (.ok (m.header i, m.chunk i), rx)
  fresh : s.rx.replay.refuses (m.firstSequence + i) = false
  receivable : s.Receivable d now
  replay : rx.replay = s.rx.replay.commit (m.firstSequence + i)
  assemblies : rx.assemblies = (s.rx.prune now).assemblies
  assembly : (rx.assemblies.lookup m.messageId).getD (Rx.fresh m now) = a
  collected : Rx.Matches m a
  empty : a.fragments[i]? = some none
  spent : ∀ j c, a.fragments[j]? = some (some c) →
    m.packet A j ∈ s.received ∧ s.rx.replay.refuses (m.firstSequence + j)

omit [DecidableEq K] in
theorem Inv.pruned (h : Inv A s) (now : ℕ) :
    Table.All (Collects A s) (s.rx.prune now).assemblies := by
  intro id a ha
  rw [Rx.lookup_prune] at ha
  exact h.assemblies id a (eq_some_of_filter_eq_some ha)

omit [DecidableEq K] in
/-- **Every datagram is refused without a trace or a genuine fragment for an empty place.** -/
theorem Inv.decode_cases (h : Inv A s) {d : Octets} {now : ℕ} (hunforged : s.Unforged A d now) :
    (∃ e rx, s.rx.authenticate A d now = (.error e, rx) ∧ rx.replay = s.rx.replay ∧
      rx.assemblies = (s.rx.prune now).assemblies) ∨
    ∃ m i a rx, Lets A s d now m i a rx := by
  cases hauth : s.rx.authenticate A d now with
  | mk r rx =>
    cases r with
    | error e =>
      obtain ⟨hreplay, hassemblies⟩ := Rx.authenticate_error hauth
      exact .inl ⟨e, rx, rfl, hreplay, hassemblies⟩
    | ok hp =>
      obtain ⟨header, p⟩ := hp
      obtain ⟨hdecode, hfresh, ⟨k, hk, hopen⟩, hreplay, hassemblies⟩ := Rx.authenticate_ok hauth
      obtain ⟨m, hm, rfl, hd⟩ := hunforged header k p hdecode hk hopen
      have hwf := h.numbered.wf m hm
      obtain ⟨i, hi, rfl⟩ := hwf.mem_datagrams.mp hd
      obtain rfl : m.header i = header := by
        rw [hwf.decode_packet hi] at hdecode
        exact Except.ok.inj hdecode
      obtain rfl : m.chunk i = p := by
        rw [Sent.decrypt_packet] at hopen
        exact some.inj hopen
      have hwindow : s.rx.inWindow (m.packet A i) = true := by
        have hnot : ¬ s.rx.replay.refuses (m.header i).sequence := by simp [hfresh]
        rw [refuses_iff, not_or] at hnot
        simp only [Rx.inWindow, hwf.decode_packet hi, decide_eq_true_eq]
        exact not_le.mp hnot.1
      have hcollected : ∃ a, (rx.assemblies.lookup m.messageId).getD (Rx.fresh m now) = a ∧
          Rx.Matches m a ∧ a.fragments[i]? = some none ∧
          ∀ j c, a.fragments[j]? = some (some c) →
            m.packet A j ∈ s.received ∧ s.rx.replay.refuses (m.firstSequence + j) := by
        rw [hassemblies]
        cases hlookup : (s.rx.prune now).assemblies.lookup m.messageId with
        | none =>
          refine ⟨_, rfl, Rx.matches_fresh m now, by simp [Rx.fresh, hi], fun j c hc => ?_⟩
          exact absurd hc (by simp [Rx.fresh, getElem?_replicate])
        | some a =>
          obtain ⟨m', hm', hid, hmatch, -, hspent⟩ := h.pruned now _ a hlookup
          obtain rfl := h.numbered.eq_of_messageId hm' hm hid
          refine ⟨a, rfl, hmatch, ?_, hspent⟩
          have hlt : i < a.fragments.length := by rwa [hmatch.length_fragments]
          rw [getElem?_eq_getElem hlt]
          cases hslot : a.fragments[i] with
          | none => rfl
          | some c =>
            have := hspent i c (by rw [getElem?_eq_getElem hlt, hslot])
            exact absurd this.2 (Bool.eq_false_iff.mp hfresh)
      obtain ⟨a, ha, hmatch, hempty, hspent⟩ := hcollected
      exact .inr ⟨m, i, a, rx, hm, hi, rfl, hauth, hfresh, ⟨m, hm, hd, hk, hwindow⟩, hreplay,
        hassemblies, ha, hmatch, hempty, hspent⟩

omit [DecidableEq K] in
/-- What refuses a number keeps refusing it, and what it does to the assemblies is expiry. -/
theorem Inv.refused (h : Inv A s) {s' : Link K} (htx : s'.tx = s.tx) (hcalls : s'.calls = s.calls)
    (hsent : s'.sent = s.sent) (hreceived : s.received ⊆ s'.received)
    (hreturned : s'.returned = s.returned) (hreplay : s'.rx.replay = s.rx.replay)
    (hassemblies : ∀ id a, s'.rx.assemblies.lookup id = some a →
      s.rx.assemblies.lookup id = some a) : Inv A s' := by
  obtain ⟨hseq, hseqle, hidpos, hidle, hwf, hidlt, hseqlt, happart⟩ := h.numbered
  refine ⟨?_, fun id a ha => ?_, fun q hq => ?_, ?_⟩
  · constructor <;> simpa only [htx, hcalls, hsent]
  · obtain ⟨m, hm, hid, hmatch, hsome, hspent⟩ := h.assemblies id a (hassemblies id a ha)
    refine ⟨m, hsent ▸ hm, hid, hmatch, hsome, fun i c hc => ⟨hreceived (hspent i c hc).1, ?_⟩⟩
    rw [hreplay]
    exact (hspent i c hc).2
  · rw [hreplay] at hq
    obtain ⟨m, hm, i, hi, hq, hmem⟩ := h.marked q hq
    exact ⟨m, hsent ▸ hm, i, hi, hq, hreceived hmem⟩
  · rw [hreturned, hsent, hreplay]
    exact h.returned

theorem received_subset (s : Link K) (d : Octets) (now : ℕ) (tie : ℕ → ℕ) :
    s.received ⊆ (s.decode A d now tie).received := by
  intro x hx
  simp only [Link.decode]
  split
  · exact mem_cons_of_mem _ hx
  · exact hx

omit [DecidableEq K] in
/-- A frame none of whose numbers are spent has not been returned. -/
theorem notMem_done {done : List (Sent K)} {m : Sent K} {i : ℕ}
    (hdone : ∀ m ∈ done, ∀ i < m.count, s.rx.replay.refuses (m.firstSequence + i))
    (hi : i < m.count) (hfresh : s.rx.replay.refuses (m.firstSequence + i) = false) :
    m ∉ done := fun hm => absurd (hdone m hm i hi) (Bool.eq_false_iff.mp hfresh)

/-- **A datagram handed over keeps the invariant.** -/
theorem Inv.decode (h : Inv A s) {d : Octets} {now : ℕ} (hunforged : s.Unforged A d now)
    (tie : ℕ → ℕ) : Inv A (s.decode A d now tie) := by
  rcases h.decode_cases hunforged with ⟨e, rx, hauth, hreplay, hassemblies⟩ | ⟨m, i, a, rx, hlets⟩
  · have hdecode : s.rx.decodeDatagram A d now tie = (.error e, rx) := by
      rw [Rx.decodeDatagram, hauth]
    refine h.refused rfl rfl rfl (received_subset s d now tie) ?_ ?_ fun id a ha => ?_
    · simp only [Link.decode, hdecode]
    · simp only [Link.decode, hdecode, hreplay]
    · simp only [Link.decode, hdecode, hassemblies, Rx.lookup_prune] at ha
      exact eq_some_of_filter_eq_some ha
  · have hdecode : s.rx.decodeDatagram A d now tie =
        rx.acceptFragment tie (m.header i) (m.chunk i) now := by
      rw [Rx.decodeDatagram, hlets.authenticated]
    have hwf := h.numbered.wf m hlets.sent
    obtain ⟨hothers, hwindow, hown⟩ := Rx.acceptFragment_genuine tie hwf hlets.index
      hlets.assembly hlets.collected hlets.empty
    rw [← hdecode] at hothers hwindow hown
    have hreplay : (s.decode A d now tie).rx.replay =
        s.rx.replay.commit (m.firstSequence + i) := hwindow.trans hlets.replay
    have hreceived : m.packet A i ∈ (s.decode A d now tie).received := by
      simp [Link.decode, hlets.receivable, hlets.packet]
    have hspent : ∀ j c, (a.fill i (m.chunk i)).fragments[j]? = some (some c) →
        m.packet A j ∈ (s.decode A d now tie).received ∧
          (s.decode A d now tie).rx.replay.refuses (m.firstSequence + j) := by
      intro j c hc
      rw [hreplay]
      by_cases hj : j = i
      · subst hj
        exact ⟨hreceived, refuses_commit_self _ (by decide)⟩
      · rw [Assembly.fill, getElem?_set_ne (.symm hj)] at hc
        exact ⟨received_subset s d now tie (hlets.spent j c hc).1,
          refuses_commit _ (hlets.spent j c hc).2⟩
    refine ⟨{ h.numbered with }, fun id b hb => ?_, fun q hq => ?_, ?_⟩
    · by_cases hid : id = m.messageId
      · subst hid
        split at hown
        · obtain rfl : a.fill i (m.chunk i) = b := some.inj (hown.2.symm.trans hb)
          have hlt : i < a.fragments.length := by
            rw [hlets.collected.length_fragments]
            exact hlets.index
          exact ⟨m, hlets.sent, rfl, hlets.collected.fill hlets.index hlets.empty,
            ⟨i, m.chunk i, getElem?_set_self hlt⟩, hspent⟩
        · cases hown.2.symm.trans hb
      · change (s.rx.decodeDatagram A d now tie).2.assemblies.lookup _ = _ at hb
        rw [hothers id hid] at hb
        split at hb
        · cases hb
        · rw [hlets.assemblies] at hb
          obtain ⟨m', hm', hid', hmatch, hsome, hold⟩ := h.pruned now id b hb
          refine ⟨m', hm', hid', hmatch, hsome, fun j c hc => ?_⟩
          rw [hreplay]
          exact ⟨received_subset s d now tie (hold j c hc).1,
            refuses_commit _ (hold j c hc).2⟩
    · rw [hreplay] at hq
      rcases marked_of_commit _ hq with rfl | hq
      · exact ⟨m, hlets.sent, i, hlets.index, rfl, hreceived⟩
      · obtain ⟨m', hm', j, hj, hseq, hmem⟩ := h.marked q hq
        exact ⟨m', hm', j, hj, hseq, received_subset s d now tie hmem⟩
    · obtain ⟨done, hnodup, hsub, hreturned, hdone⟩ := h.returned
      have hdone' : ∀ m' ∈ done, ∀ j < m'.count,
          (s.decode A d now tie).rx.replay.refuses (m'.firstSequence + j) := by
        intro m' hm' j hj
        rw [hreplay]
        exact refuses_commit _ (hdone m' hm' j hj)
      split at hown
      · refine ⟨done, hnodup, hsub, ?_, hdone'⟩
        simp only [Link.decode, hown.1, hreturned]
      next hall =>
        refine ⟨done ++ [m], ?_, ?_, ?_, fun m' hm' j hj => ?_⟩
        · rw [← concat_eq_append]
          exact hnodup.concat (notMem_done hdone hlets.index hlets.fresh)
        · exact append_subset.mpr ⟨hsub, fun x hx => mem_singleton.mp hx ▸ hlets.sent⟩
        · simp only [Link.decode, hown.1, hreturned, map_append, map_singleton]
        · rcases mem_append.mp hm' with hm' | hm'
          · exact hdone' m' hm' j hj
          · -- every place of the assembly is filled, so every number of the frame is spent
            obtain rfl := mem_singleton.mp hm'
            have hlt : j < (a.fill i (m'.chunk i)).fragments.length := by
              rwa [(hlets.collected.fill hlets.index hlets.empty).length_fragments]
            have hsome : (a.fill i (m'.chunk i)).fragments[j].isNone = false := by
              rw [Bool.not_eq_true, List.any_eq_false] at hall
              exact Bool.eq_false_iff.mpr (hall _ (getElem_mem hlt))
            obtain ⟨c, hc⟩ := isSome_iff_exists.mp (isNone_eq_false_iff.mp hsome)
            exact (hspent j c (by rw [getElem?_eq_getElem hlt, hc])).2

omit [DecidableEq K] in
theorem start_inv (rawKey sessionId : FixedBytes 32) (assemblies bytes now : ℕ) :
    Inv A (start A rawKey sessionId assemblies bytes now) := by
  refine ⟨⟨one_pos, (by decide : 1 ≤ Saturating.u64Max), one_pos, le_refl 1, ?_, ?_, ?_,
    List.Pairwise.nil⟩, Table.All.empty, fun q hq => absurd hq (not_marked_empty q), ?_⟩
  · exact nofun
  · exact nofun
  · exact nofun
  · exact ⟨[], nodup_nil, nil_subset _, rfl, nofun⟩

/-- **The invariant holds along every run.** -/
theorem Inv.step (h : Inv A s) {op : LinkOp} (hop : s.Valid A op) : Inv A (s.step A op) := by
  cases op with
  | encode frame size =>
    have hsub : s.sent ⊆ (s.encode A frame size).sent := by
      intro m hm
      simp only [Link.encode]
      split
      · exact mem_append_left _ hm
      · exact hm
    refine ⟨h.numbered.encode frame size hop, fun id a ha => ?_, fun q hq => ?_, ?_⟩
    · obtain ⟨m, hm, hrest⟩ := h.assemblies id a ha
      exact ⟨m, hsub hm, hrest⟩
    · obtain ⟨m, hm, hrest⟩ := h.marked q hq
      exact ⟨m, hsub hm, hrest⟩
    · obtain ⟨done, hnodup, hdone, hrest⟩ := h.returned
      exact ⟨done, hnodup, List.Subset.trans hdone hsub, hrest⟩
  | txRekey rawKey sessionId => exact ⟨{ h.numbered with }, h.assemblies, h.marked, h.returned⟩
  | rxRekey rawKey sessionId now =>
    exact h.refused rfl rfl rfl (List.Subset.refl _) rfl rfl fun _ _ ha => ha
  | decode => exact h.decode hop.2 ..

end Link

end VeilNetwork.Session.Realtime
