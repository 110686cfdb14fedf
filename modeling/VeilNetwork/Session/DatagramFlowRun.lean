import VeilNetwork.Session.DatagramFlows
import VeilNetwork.Session.RealtimeDelivery

/-!
# Runs of the datagram flows

A sender that keeps its slots emits at most sixteen identifiers in its life, since a slot is never
given up, only handed on. Its codecs number their datagrams on and on, through rekeys and from one
circuit to the next, so that no two datagrams with the same identifier have the same sequence
number, let alone under the same key (`FlowSender.flows_never_reuse`). A receiver that is given
these datagrams therefore never runs out of slots.
-/

namespace VeilNetwork.Session.Realtime

open List Option Table Function Bytes FixedBytes

variable {K : Type} {A : LaneAead K}
  {flowKey : FixedBytes 32 → FixedBytes 32 → FlowId → FixedBytes 32}

/-! ### The session's datagrams -/

/-- The calls on a sender. -/
inductive SendCall where
  | encodeFrame (localFlow : ℕ) (frame : Octets) (ceiling : ℕ) (draws : List FlowId)
  | rekey (key session : FixedBytes 32)

namespace SessionTx

/-- A call that has not returned has changed nothing yet. -/
def step (A : LaneAead K) (flowKey : FixedBytes 32 → FixedBytes 32 → FlowId → FixedBytes 32)
    (tx : SessionTx K) : SendCall → SessionTx K
  | .encodeFrame localFlow frame ceiling draws =>
    match tx.encodeFrame A flowKey localFlow frame ceiling draws with
    | .done (_, tx) => tx
    | _ => tx
  | .rekey key session => tx.rekey A flowKey key session

/-- The slots, where there are any, are in order. -/
def Slotted : SessionTx K → Prop
  | legacy _ => True
  | flows tx => tx.Slotted

theorem Slotted.step {tx : SessionTx K} (h : tx.Slotted) (c : SendCall) :
    (tx.step A flowKey c).Slotted := by
  cases tx with
  | legacy tx => cases c with
    | encodeFrame localFlow frame ceiling draws => trivial
    | rekey key session => trivial
  | flows tx =>
    cases c with
    | encodeFrame localFlow frame ceiling draws =>
      rcases h.encodeFrame_cases A flowKey localFlow ceiling frame draws with
        hout | ⟨e, -, hout⟩ | ⟨n, tx₁, flow, -, hbound, hflow, hout⟩
      · simp only [SessionTx.step, SessionTx.encodeFrame, hout]
        exact h
      · simp only [SessionTx.step, SessionTx.encodeFrame, hout]
        exact h
      · simp only [SessionTx.step, SessionTx.encodeFrame, hout]
        exact h.sealed hbound hflow
    | rekey => exact h.rekey ..

theorem slotted_new (A : LaneAead K) (key session : FixedBytes 32) (flows : Bool) :
    (new A key session flows).Slotted := by
  cases flows with
  | false => trivial
  | true => exact FlowTx.slotted_new key session

end SessionTx

/-! ### What has been sent -/

/-- The identifier in a datagram. -/
def wireId (d : Octets) : Octets := (d.drop 4).take 16

/-- The sequence number in a datagram. -/
def wireSequence (d : Octets) : ℕ := Bytes.ofBe ((d.drop (prefixLen + 16)).take 8)

/-- A datagram, with the key and the session it was sealed under. -/
structure Emission where
  key : FixedBytes 32
  session : FixedBytes 32
  datagram : Octets

/-- A sender with all it has sent. -/
structure FlowSender (K : Type) where
  tx : FlowTx K
  emitted : List Emission

theorem wireId_wrap (flow : TxFlow K) (packet : Octets) : wireId (flow.wrap packet) = flow.id.1 :=
  take_left' flow.id.2

/-- The number of a sealed fragment is where it is looked for. -/
theorem wireSequence_wrap (flow : TxFlow K) (k : K) (h : FragmentHeader) (chunk : Octets)
    (hseq : h.sequence ≤ Saturating.u64Max) :
    wireSequence (flow.wrap (Tx.sealFragment A k h chunk)) = h.sequence := by
  have hfront : (flowMagic ++ flow.id.1).length = prefixLen := by
    rw [length_append, flow.id.2]
    rfl
  have hfields : (magic ++ (toBe 4 h.messageId ++ (toBe 2 h.fragmentIndex ++
      (toBe 2 h.fragmentCount ++ toBe 4 h.totalLen)))).length = 16 := by
    simp [magic]
  rw [wireSequence, TxFlow.wrap, Tx.sealFragment, FragmentHeader.encode, ← append_assoc,
    ← drop_drop, drop_left' hfront]
  simp only [← append_assoc] at hfields ⊢
  rw [append_assoc _ (toBe 8 h.sequence), drop_left' hfields,
    take_left' (length_toBe 8 _), ofBe_toBe]
  exact Nat.mod_eq_of_lt (lt_of_le_of_lt hseq (by decide))

namespace FlowTx

variable {tx tx' : FlowTx K} {localFlow : ℕ} {f : TxFlow K} {a : ℕ}

/-- **No slot is given up**: when a flow gets one, every slot there was is still there, and a
lane's is still the lane's. -/
theorem Slotted.keeps (h : tx.Slotted) (hb : Bound A flowKey tx localFlow tx')
    (hf : tx.flows.lookup a = some f) :
    ∃ a', tx'.flows.lookup a' = some f ∧ (a ∈ localLanes → a' = a) := by
  cases hb with
  | kept hbound => exact ⟨a, hf, fun _ => rfl⟩
  | @taken oldest reusable flow hnew hold hflow =>
    have hne := ne_of_lookup hf hnew
    rcases eq_or_ne a oldest with rfl | hother
    · refine ⟨localFlow, ?_, fun hlane => ?_⟩
      · rw [AList.lookup_insert, ← hflow, hf]
      · -- the slot of a lane is not among those that may be taken over
        have hmem : a ∈ tx.reusable := hold ▸ mem_cons_self
        exact absurd hlane ((h.reusable a).mp hmem).2
    · refine ⟨a, ?_, fun _ => rfl⟩
      rw [lookup_insert_eq_ite, if_neg hne, lookup_erase_eq_ite, if_neg hother, hf]
  | drawn hnew hroom hunused =>
    refine ⟨a, ?_, fun _ => rfl⟩
    rw [lookup_insert_eq_ite, if_neg (ne_of_lookup hf hnew), hf]

/-- Its codec may have counted on since. -/
theorem Slotted.keeps_sealed (h : tx.Slotted) (hb : Bound A flowKey tx localFlow tx')
    {flow : TxFlow K} (hflow : tx'.flows.lookup localFlow = some flow) (frame : Octets)
    (ceiling : ℕ) (hf : tx.flows.lookup a = some f) :
    ∃ a' f', (tx'.sealed A localFlow flow frame ceiling).flows.lookup a' = some f' ∧
      f'.id = f.id ∧ f.codec.nextSequence ≤ f'.codec.nextSequence ∧ (a ∈ localLanes → a' = a) := by
  obtain ⟨a', hf', hlane⟩ := h.keeps hb hf
  simp only [FlowTx.sealed, lookup_insert_eq_ite]
  rcases eq_or_ne a' localFlow with rfl | hne
  · rw [hflow] at hf'
    cases hf'
    exact ⟨a', _, if_pos rfl, rfl, (encodeFrame_frame A _ frame (ceiling - prefixLen)).1, hlane⟩
  · exact ⟨a', f, by rw [if_neg hne, hf'], rfl, le_rfl, hlane⟩

variable (A flowKey) in
theorem lookup_rekey (key session : FixedBytes 32) (hf : tx.flows.lookup a = some f) :
    ∃ f', (tx.rekey A flowKey key session).flows.lookup a = some f' ∧ f'.id = f.id ∧
      f'.codec.nextSequence = f.codec.nextSequence := by
  rw [FlowTx.rekey]
  rw [lookup_map, hf]
  exact ⟨_, rfl, rfl, rfl⟩

end FlowTx

namespace FlowSender

/-- The datagrams of a call go out under the key of that time. -/
def step (A : LaneAead K) (flowKey : FixedBytes 32 → FixedBytes 32 → FlowId → FixedBytes 32)
    (s : FlowSender K) : SendCall → FlowSender K
  | .encodeFrame localFlow frame ceiling draws =>
    match s.tx.encodeFrame A flowKey localFlow frame ceiling draws with
    | .done (.ok packets, tx) => ⟨tx, s.emitted ++ packets.map (⟨s.tx.key, s.tx.session, ·⟩)⟩
    | .done (.error _, tx) => { s with tx }
    | _ => s
  | .rekey key session => { s with tx := s.tx.rekey A flowKey key session }

def new (key session : FixedBytes 32) : FlowSender K := ⟨.new key session, []⟩

/-- The books of a sender: what was sent under an identifier has a number its slot has already
given, and no number was given twice. -/
structure Numbered (s : FlowSender K) : Prop where
  slotted : s.tx.Slotted
  room : ∀ a f, s.tx.flows.lookup a = some f → f.codec.nextSequence ≤ Saturating.u64Max
  given : ∀ e ∈ s.emitted, ∃ a f, s.tx.flows.lookup a = some f ∧ wireId e.datagram = f.id.1 ∧
    wireSequence e.datagram < f.codec.nextSequence
  once : s.emitted.Pairwise fun e e' => wireId e.datagram = wireId e'.datagram →
    wireSequence e.datagram ≠ wireSequence e'.datagram

variable {s : FlowSender K} {localFlow ceiling : ℕ} {frame : Octets} {tx : FlowTx K}

/-- What was given stays given when slots are kept and codecs count on. -/
theorem Numbered.given_of_keeps (h : s.Numbered)
    (hkeeps : ∀ a f, s.tx.flows.lookup a = some f → ∃ a' f', tx.flows.lookup a' = some f' ∧
      f'.id = f.id ∧ f.codec.nextSequence ≤ f'.codec.nextSequence) :
    ∀ e ∈ s.emitted, ∃ a f, tx.flows.lookup a = some f ∧ wireId e.datagram = f.id.1 ∧
      wireSequence e.datagram < f.codec.nextSequence := by
  intro e he
  obtain ⟨a, f, hf, hid, hlt⟩ := h.given e he
  obtain ⟨a', f', hf', hid', hle⟩ := hkeeps a f hf
  exact ⟨a', f', hf', by rw [hid, hid'], hlt.trans_le hle⟩

variable {flow : TxFlow K}

/-- The codec of the slot a flow has come to has a number left to give. -/
theorem Numbered.codec_le (h : s.Numbered) (hbound : FlowTx.Bound A flowKey s.tx localFlow tx)
    (hflow : tx.flows.lookup localFlow = some flow) :
    flow.codec.nextSequence ≤ Saturating.u64Max := by
  rcases hbound.codec hflow with ⟨a, ha⟩ | hone
  · exact h.room a flow ha
  · rw [hone]
    decide

/-- The codecs have counted no further than they can. -/
theorem Numbered.room_sealed (h : s.Numbered) (hbound : FlowTx.Bound A flowKey s.tx localFlow tx)
    (hflow : tx.flows.lookup localFlow = some flow) (a : ℕ) (f : TxFlow K)
    (hf : (tx.sealed A localFlow flow frame ceiling).flows.lookup a = some f) :
    f.codec.nextSequence ≤ Saturating.u64Max := by
  simp only [FlowTx.sealed, lookup_insert_eq_ite] at hf
  split at hf
  · cases hf
    exact (encodeFrame_frame A _ frame (ceiling - prefixLen)).2.1 (h.codec_le hbound hflow)
  next hne =>
  cases hbound with
  | kept hbound => exact h.room a f hf
  | taken hnew hold hflow' =>
    rw [lookup_insert_eq_ite, if_neg hne, lookup_erase_eq_ite] at hf
    split at hf
    · cases hf
    · exact h.room a f hf
  | drawn hnew hroom hunused =>
    rw [lookup_insert_eq_ite, if_neg hne] at hf
    exact h.room a f hf

/-- **The datagrams of a frame** carry the identifier of the slot and the numbers its codec
gives next, each once. -/
theorem wrap_numbers {packets : List Octets} (hmax : flow.codec.nextSequence ≤ Saturating.u64Max)
    (hok : (flow.codec.encodeFrame A frame ceiling).1 = .ok packets) :
    (∀ d ∈ packets.map flow.wrap, wireId d = flow.id.1 ∧ flow.codec.nextSequence ≤ wireSequence d ∧
      wireSequence d < (flow.codec.encodeFrame A frame ceiling).2.nextSequence) ∧
      (packets.map flow.wrap).Pairwise fun d d' => wireSequence d ≠ wireSequence d' := by
  obtain ⟨hpackets, -, -, -, -, -, hnext, hroom⟩ := encodeFrame_ok A hmax (Prod.ext hok rfl)
  have hseq (i : ℕ) (hi : i < (Sent.ofCall flow.codec frame ceiling packets).count) :
      wireSequence (flow.wrap ((Sent.ofCall flow.codec frame ceiling packets).packet A i)) =
        flow.codec.nextSequence + i :=
    wireSequence_wrap flow _ _ _ (by simp only [Sent.header, Sent.ofCall] at hi hroom ⊢; omega)
  rw [hpackets, Sent.packets, List.map_map]
  constructor
  · intro d hd
    obtain ⟨i, hi, rfl⟩ := mem_map.mp hd
    rw [mem_range] at hi
    rw [comp_apply, wireId_wrap, hseq i hi, hnext]
    exact ⟨rfl, Nat.le_add_right _ _, Nat.add_lt_add_left hi _⟩
  · rw [pairwise_map]
    refine pairwise_lt_range.imp_of_mem fun {i j} hi hj hij => ?_
    rw [comp_apply, comp_apply, hseq i (mem_range.mp hi),
      hseq j (mem_range.mp hj)]
    omega

theorem Numbered.encodeFrame (h : s.Numbered) (localFlow : ℕ) (frame : Octets) (ceiling : ℕ)
    (draws : List FlowId) :
    (s.step A flowKey (.encodeFrame localFlow frame ceiling draws)).Numbered := by
  rw [step]
  rcases h.slotted.encodeFrame_cases A flowKey localFlow ceiling frame draws with
    hout | ⟨e, -, hout⟩ | ⟨n, tx₁, flow, -, hbound, hflow, hout⟩
  · rwa [hout]
  · rwa [hout]
  rw [hout]
  have hslotted : (tx₁.sealed A localFlow flow frame ceiling).Slotted :=
    h.slotted.sealed hbound hflow
  have hgiven := h.given_of_keeps fun a f hf => by
    obtain ⟨a', f', hf', hid, hle, -⟩ :=
      h.slotted.keeps_sealed hbound hflow frame ceiling hf
    exact ⟨a', f', hf', hid, hle⟩
  have hlast : (tx₁.sealed A localFlow flow frame ceiling).flows.lookup localFlow =
      some { flow with codec := (flow.codec.encodeFrame A frame (ceiling - prefixLen)).2 } :=
    AList.lookup_insert _
  cases hpackets : (flow.codec.encodeFrame A frame (ceiling - prefixLen)).1 with
  | error e => exact ⟨hslotted, h.room_sealed hbound hflow, hgiven, h.once⟩
  | ok packets =>
    obtain ⟨hnew, honce⟩ := wrap_numbers (h.codec_le hbound hflow) hpackets
    refine ⟨hslotted, h.room_sealed hbound hflow, ?_, ?_⟩
    · intro e he
      rcases mem_append.mp he with he | he
      · exact hgiven e he
      · obtain ⟨d, hd, rfl⟩ := mem_map.mp he
        obtain ⟨hid, -, hlt⟩ := hnew d hd
        exact ⟨localFlow, _, hlast, hid, hlt⟩
    · refine pairwise_append.mpr ⟨h.once, ?_, ?_⟩
      · rw [pairwise_map]
        refine honce.imp ?_
        exact fun hne _ => hne
      · intro e he e' he' hids
        obtain ⟨d, hd, rfl⟩ := mem_map.mp he'
        obtain ⟨hid, hle, -⟩ := hnew d hd
        -- an identifier that was used before is that of the slot as it was before
        obtain ⟨a, f, hf, hidf, hlt⟩ := h.given e he
        obtain ⟨a', hf', -⟩ := h.slotted.keeps hbound hf
        have hsame : f.id = flow.id := Subtype.ext (hidf.symm.trans (hids.trans hid))
        have hslot : a' = localFlow := (h.slotted.bound hbound).ids a' localFlow f flow
          (by rw [FlowTx.flows_touch, hf']) (by rw [FlowTx.flows_touch, hflow]) hsame
        rw [hslot, hflow] at hf'
        cases hf'
        exact (hlt.trans_le hle).ne

theorem Numbered.step (h : s.Numbered) (c : SendCall) : (s.step A flowKey c).Numbered := by
  cases c with
  | encodeFrame => exact h.encodeFrame ..
  | rekey key session =>
    refine ⟨h.slotted.rekey key session, fun a f hf => ?_, ?_, h.once⟩
    · rw [FlowSender.step, FlowTx.rekey] at hf
      rw [lookup_map] at hf
      obtain ⟨g, hg, rfl⟩ := map_eq_some_iff.mp hf
      exact h.room a g hg
    · refine h.given_of_keeps fun a f hf => ?_
      obtain ⟨f', hf', hid, hseq⟩ := FlowTx.lookup_rekey A flowKey key session hf
      exact ⟨a, f', hf', hid, hseq.ge⟩

theorem numbered_new (key session : FixedBytes 32) : (new key session : FlowSender K).Numbered where
  slotted := FlowTx.slotted_new key session
  room _ _ hf := absurd hf (by simp [new, FlowTx.new])
  given _ he := absurd he not_mem_nil
  once := List.Pairwise.nil

theorem numbered_run (key session : FixedBytes 32) (calls : List SendCall) :
    (calls.foldl (FlowSender.step A flowKey) (new key session)).Numbered :=
  Run.invariant (fun _ c h => h.step c) (numbered_new key session) calls

/-- A lane keeps its identifier from one call to the next. -/
theorem Numbered.lane_step (h : s.Numbered) {lane : ℕ} (hlane : lane ∈ localLanes) {id : FlowId}
    (hid : (s.tx.flows.lookup lane).map TxFlow.id = some id) (c : SendCall) :
    ((s.step A flowKey c).tx.flows.lookup lane).map TxFlow.id = some id := by
  obtain ⟨f, hf, hfid⟩ := map_eq_some_iff.mp hid
  cases c with
  | encodeFrame localFlow frame ceiling draws =>
    rw [FlowSender.step]
    rcases h.slotted.encodeFrame_cases A flowKey localFlow ceiling frame draws with
      hout | ⟨e, -, hout⟩ | ⟨n, tx₁, flow, -, hbound, hflow, hout⟩
    · rwa [hout]
    · rwa [hout]
    obtain ⟨a', f', hf', hid', -, hkept⟩ :=
      h.slotted.keeps_sealed hbound hflow frame ceiling hf
    rw [hkept hlane] at hf'
    rw [hout]
    cases (flow.codec.encodeFrame A frame (ceiling - prefixLen)).1 with
    | error | ok =>
      refine (congrArg (Option.map TxFlow.id) hf').trans ?_
      rw [map_some, hid', hfid]
  | rekey key session =>
    obtain ⟨f', hf', hid', -⟩ := FlowTx.lookup_rekey A flowKey key session hf
    rw [FlowSender.step, hf', map_some, hid', hfid]

/-- **Sixteen identifiers at most** were ever sent. -/
theorem Numbered.ids_le (h : s.Numbered) :
    (s.emitted.map fun e => wireId e.datagram).dedup.length ≤ maxFlows := by
  have hsub : (s.emitted.map fun e => wireId e.datagram).dedup ⊆
      s.tx.flows.entries.map fun slot => slot.2.id.1 := by
    intro id hid
    obtain ⟨e, he, rfl⟩ := mem_map.mp (mem_dedup.mp hid)
    obtain ⟨a, f, hf, hidf, -⟩ := h.given e he
    exact mem_map.mpr ⟨⟨a, f⟩, lookup_eq_some_iff.mp hf, hidf.symm⟩
  have hle := (subperm_of_subset (nodup_dedup _) hsub).length_le
  rw [length_map] at hle
  exact hle.trans h.slotted.size

end FlowSender

/-! ### The receiver of what was sent -/

/-- The codec of one flow knows nothing of slots. -/
theorem Rx.decodeDatagram_ne_flowCapacity (A : LaneAead K) (rx : Rx K) (d : Octets) (now : ℕ)
    (tie : ℕ → ℕ) : (rx.decodeDatagram A d now tie).1 ≠ .error .flowCapacity := by
  intro h
  rw [Rx.decodeDatagram] at h
  split at h
  next e rx' hauth =>
    have he : e = .flowCapacity := Except.error.inj h
    rw [Rx.authenticate] at hauth
    split at hauth
    next e' hdecode =>
      obtain rfl : e' = e := Except.error.inj (Prod.mk.inj hauth).1
      rw [FragmentHeader.decode] at hdecode
      split at hdecode
      · rw [he] at hdecode
        cases hdecode
      · split at hdecode
        · rw [he] at hdecode
          cases hdecode
        · split at hdecode
          · cases hdecode
          · rw [he] at hdecode
            cases hdecode
    · split at hauth
      next e' hrefused =>
        obtain rfl : e' = e := Except.error.inj (Prod.mk.inj hauth).1
        rw [he, precheck] at hrefused
        split at hrefused
        · cases hrefused
        · split at hrefused
          · cases hrefused
          · cases hrefused
      · rw [he] at hauth
        split at hauth
        · cases hauth
        · cases hauth
  · rcases Rx.acceptFragment_error h with he | he
    · cases he
    · cases he

namespace FlowRx

/-- The calls on a receiver of flows. -/
inductive Call where
  | decodeDatagram (packet : Octets) (now : ℕ) (tie : ℕ → ℕ)
  | rekey (key session : FixedBytes 32) (now : ℕ)

/-- One call. -/
def step (A : LaneAead K) (flowKey : FixedBytes 32 → FixedBytes 32 → FlowId → FixedBytes 32)
    (rx : FlowRx K) : Call → FlowRx K
  | .decodeDatagram packet now tie => (rx.decodeDatagram A flowKey packet now tie).2
  | .rekey key session now => rx.rekey A flowKey key session now

/-- The slots of a receiver are for some of the given identifiers. -/
def Within (ids : List Octets) (rx : FlowRx K) : Prop :=
  ∀ id, (rx.flows.lookup id).isSome → id.1 ∈ ids

variable {ids : List Octets} {rx : FlowRx K}

theorem Within.expire (h : rx.Within ids) (now : ℕ) : (rx.expire now).Within ids := by
  intro id hid
  rw [FlowRx.expire] at hid
  rw [lookup_map, isSome_map] at hid
  exact h id hid

variable {id : FlowId}

section

variable (h : rx.Within ids)

include h

theorem Within.insert (hid : id.1 ∈ ids) (flow : Rx K) :
    Within ids { rx with flows := rx.flows.insert id flow } := by
  intro id' hsome
  rw [lookup_insert_eq_ite] at hsome
  split at hsome
  next heq => rwa [heq]
  · exact h id' hsome

section

variable (hids : ids.dedup.length ≤ maxFlows)

include hids

/-- **There is a slot for each of sixteen identifiers.** -/
theorem Within.size_lt (hid : id.1 ∈ ids) (hnew : rx.flows.lookup id = none) :
    rx.flows.size < maxFlows := by
  let octets (id : FlowId) : Octets := id.1
  have hsub : (id :: rx.flows.keys).map octets ⊆ ids.dedup := by
    intro l hl
    obtain ⟨id', hid', rfl⟩ := mem_map.mp hl
    rw [mem_dedup]
    rcases mem_cons.mp hid' with rfl | hkey
    · exact hid
    · obtain ⟨flow, hflow⟩ := mem_keys_iff.mp hkey
      exact h id' (by rw [hflow]; rfl)
  have hnodup : ((id :: rx.flows.keys).map octets).Nodup := by
    refine List.Nodup.map (fun _ _ heq => Subtype.ext heq)
      (nodup_cons.mpr ⟨fun hkey => ?_, rx.flows.keys_nodup⟩)
    obtain ⟨flow, hflow⟩ := mem_keys_iff.mp hkey
    rw [hnew] at hflow
    cases hflow
  have hle := (subperm_of_subset hnodup hsub).length_le
  rw [length_map, length_cons, ← size_eq_length_keys] at hle
  omega

theorem Within.dispatch (hid : id.1 ∈ ids) (packet : Octets) (now : ℕ) (tie : ℕ → ℕ) :
    (rx.dispatch A flowKey id packet now tie).1 ≠ .error .flowCapacity ∧
      (rx.dispatch A flowKey id packet now tie).2.Within ids := by
  rw [FlowRx.dispatch]
  split
  next flow hflow => exact ⟨Rx.decodeDatagram_ne_flowCapacity A flow packet now tie, h.insert hid _⟩
  next hnew =>
  rw [if_neg (not_le.mpr (h.size_lt hids hid hnew))]
  have hinner := Rx.decodeDatagram_ne_flowCapacity A (rx.freshReceiver A flowKey id) packet now tie
  split
  next e flow hdecoded =>
    rw [hdecoded] at hinner
    exact ⟨fun he => hinner (congrArg Except.error (Except.error.inj he)), h⟩
  next decoded flow hdecoded =>
    refine ⟨fun he => ?_, h.insert hid flow⟩
    cases he

theorem Within.decodeDatagram {packet : Octets} (hpacket : wireId packet ∈ ids) (now : ℕ)
    (tie : ℕ → ℕ) :
    (rx.decodeDatagram A flowKey packet now tie).1 ≠ .error .flowCapacity ∧
      (rx.decodeDatagram A flowKey packet now tie).2.Within ids := by
  have hexpired := h.expire now
  rw [FlowRx.decodeDatagram]
  split
  · refine ⟨fun he => ?_, hexpired⟩
    cases he
  split
  · refine ⟨fun he => ?_, hexpired⟩
    cases he
  next id rest hread =>
  split
  · refine ⟨fun he => ?_, hexpired⟩
    cases he
  have hid : id.1 ∈ ids := by
    have hfront := append_of_read hread
    rwa [wireId, hfront, take_left' id.2] at hpacket
  exact hexpired.dispatch hids hid rest now tie

end

theorem Within.rekey (key session : FixedBytes 32) (now : ℕ) :
    (rx.rekey A flowKey key session now).Within ids := by
  intro id hid
  rw [FlowRx.rekey] at hid
  rw [lookup_map, isSome_map] at hid
  exact h id hid

end

/-- **A receiver given datagrams of sixteen identifiers** keeps a slot for each. -/
theorem within_run (hids : ids.dedup.length ≤ maxFlows) (key session : FixedBytes 32)
    {calls : List Call}
    (hcalls : ∀ packet now tie, .decodeDatagram packet now tie ∈ calls → wireId packet ∈ ids) :
    (calls.foldl (step A flowKey) (new key session)).Within ids := by
  have halong : Run.Along (step A flowKey) (fun _ c => ∀ packet now tie,
      c = .decodeDatagram packet now tie → wireId packet ∈ ids) (new key session) calls :=
    Run.Along.of_forall fun c hc packet now tie heq => hcalls packet now tie (heq ▸ hc)
  refine Run.invariant_along (P := Within ids) (fun rx c hc h => ?_) ?_ halong
  · cases c with
    | decodeDatagram packet now tie =>
      exact (h.decodeDatagram hids (hc packet now tie rfl) now tie).2
    | rekey key session now => exact h.rekey key session now
  · intro id hid
    exact absurd hid (by simp [new])

end FlowRx

namespace FlowSender

/-- **Flows are few and reuse no nonce**: whatever is sent, for whatever circuits, and whenever
the keys change,
* at most sixteen identifiers are seen on the wire, two flows that are bound have different
  ones, and a lane that is bound keeps its own;
* no `expect` fails;
* no two datagrams sealed under the same key, in the same session and with the same identifier
  have the same number;
* and a receiver that is given some of the datagrams, in any order, never lacks a slot. -/
theorem flows_never_reuse (A : LaneAead K)
    (flowKey : FixedBytes 32 → FixedBytes 32 → FlowId → FixedBytes 32)
    (key session : FixedBytes 32) (calls : List SendCall) :
    let s := calls.foldl (step A flowKey) (new key session)
    (s.emitted.map fun e => wireId e.datagram).dedup.length ≤ maxFlows ∧
    (∀ a b f g, s.tx.flows.lookup a = some f → s.tx.flows.lookup b = some g → a ≠ b →
      f.id ≠ g.id) ∧
    (∀ lane ∈ localLanes, ∀ f, s.tx.flows.lookup lane = some f → ∀ later : List SendCall,
      ((later.foldl (step A flowKey) s).tx.flows.lookup lane).map TxFlow.id = some f.id) ∧
    (∀ localFlow frame ceiling draws,
      s.tx.encodeFrame A flowKey localFlow frame ceiling draws ≠ .panicked) ∧
    (s.emitted.Pairwise fun e e' =>
      e.key = e'.key → e.session = e'.session → wireId e.datagram = wireId e'.datagram →
        wireSequence e.datagram ≠ wireSequence e'.datagram) ∧
    ∀ (rxKey rxSession : FixedBytes 32) (received : List FlowRx.Call),
      (∀ packet now tie, .decodeDatagram packet now tie ∈ received →
        ∃ e ∈ s.emitted, e.datagram = packet) →
      ∀ e ∈ s.emitted, ∀ now tie,
        ((received.foldl (FlowRx.step A flowKey) (.new rxKey rxSession)).decodeDatagram A flowKey
          e.datagram now tie).1 ≠ .error .flowCapacity := by
  intro s
  have h : s.Numbered := numbered_run key session calls
  have hemitted {e : Emission} (he : e ∈ s.emitted) :
      wireId e.datagram ∈ s.emitted.map fun e => wireId e.datagram :=
    mem_map_of_mem he
  refine ⟨h.ids_le, ?_, ?_, ?_, ?_, ?_⟩
  · intro a b f g hf hg hne hid
    exact hne (h.slotted.ids a b f g hf hg hid)
  · intro lane hlane f hf later
    refine (Run.invariant (P := fun s : FlowSender K => s.Numbered ∧
      (s.tx.flows.lookup lane).map TxFlow.id = some f.id) ?_ ⟨h, ?_⟩ later).2
    · exact fun s c hs => ⟨hs.1.step c, hs.1.lane_step hlane hs.2 c⟩
    · rw [hf, map_some]
  · exact fun localFlow frame ceiling draws => h.slotted.encodeFrame.1
  · exact h.once.imp fun honce _ _ => honce
  · intro rxKey rxSession received hreceived e he now tie
    refine (FlowRx.Within.decodeDatagram ?_ h.ids_le (hemitted he) now tie).1
    refine FlowRx.within_run h.ids_le rxKey rxSession fun packet now tie hmem => ?_
    obtain ⟨e, he, rfl⟩ := hreceived packet now tie hmem
    exact hemitted he

end FlowSender

end VeilNetwork.Session.Realtime
