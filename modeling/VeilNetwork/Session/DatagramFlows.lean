import VeilNetwork.Lib.Run
import VeilNetwork.Session.RealtimeFragments

/-!
# Datagram flows

The session datagrams of `datagram_flows.rs`. A session that negotiated flows puts an opaque
identifier in front of each datagram and keeps one realtime codec per identifier. A local
flow – one of the two endpoint lanes or a circuit – is bound to a slot when it first sends;
there are sixteen slots, two of them kept free for the lanes, and a circuit that finds no free
one takes over the slot of the circuit that sent longest ago, with its identifier and counters.

Identifiers are drawn at random until one is new. A call is given what it draws, and
`Outcome.drawing` says that none of it would do. `Outcome.panicked` is a failed `expect`; it is
not reached (`FlowTx.Slotted.encodeFrame`). The lengths of the datagrams can be told in advance
(`SessionTx.sizes_predicted`).
-/

namespace VeilNetwork.Session.Realtime

open List Option Table Nat Function Chunks

variable {K : Type} {A : LaneAead K}

/-- `b"VDF1"`. -/
def flowMagic : List UInt8 := [0x56, 0x44, 0x46, 0x31]

def prefixLen : ℕ := 20
def maxFlows : ℕ := 16

/-- The flows of the endpoint itself; circuits have other numbers. -/
def localLanes : List ℕ := [0, 2]

def fragmentOverhead : ℕ := headerLen + tagLen
def minFlowDatagramSize : ℕ := prefixLen + 41

abbrev FlowId : Type := FixedBytes 16

def flowFragmentCount (frameLen ceiling : ℕ) : Except RealtimeDatagramError ℕ :=
  if frameLen = 0 ∨ maxRealtimeFrame < frameLen then .error (.frameSize frameLen)
  else if ceiling ≤ prefixLen + fragmentOverhead then .error (.datagramTooSmall ceiling)
  else
    let payload := ceiling - (prefixLen + fragmentOverhead)
    let count := (frameLen + payload - 1) / payload
    if maxFragments < count then .error (.tooManyFragments count) else .ok count

/-- How a call ends: it is still drawing identifiers, an `expect` failed, or it returned. -/
inductive Outcome (α : Type) where
  | drawing
  | panicked
  | done (result : α)

/-! ### The sender -/

structure TxFlow (K : Type) where
  id : FlowId
  codec : Tx K

/-- `FlowDatagramTx`. -/
structure FlowTx (K : Type) where
  key : FixedBytes 32
  session : FixedBytes 32
  flows : Table ℕ (TxFlow K)
  reusable : List ℕ

/-- The datagram of a flow. -/
def TxFlow.wrap {K : Type} (flow : TxFlow K) (packet : Octets) : Octets :=
  flowMagic ++ (flow.id.1 ++ packet)

section Model

variable (A : LaneAead K) (flowKey : FixedBytes 32 → FixedBytes 32 → FlowId → FixedBytes 32)

namespace FlowTx

def new (key session : FixedBytes 32) : FlowTx K := ⟨key, session, ∅, []⟩

variable (tx : FlowTx K) (localFlow : ℕ)

/-- The lanes that may still ask for a slot of their own. -/
def absentLanes : ℕ :=
  (localLanes.filter fun lane =>
    decide (lane ≠ localFlow) && (tx.flows.lookup lane).isNone).length

/-- The drawn identifier is neither zero nor in use. -/
def unused (id : FlowId) : Bool :=
  decide (id ≠ FixedBytes.replicate 16 0) && tx.flows.entries.all fun e => decide (e.2.id ≠ id)

/-- The slot of a local flow: its own, the one used longest ago, or a new one. -/
def bindFlow (draws : List FlowId) : Outcome (FlowTx K) :=
  if (tx.flows.lookup localFlow).isSome then .done tx
  else if maxFlows - tx.absentLanes localFlow ≤ tx.flows.size then
    match tx.reusable with
    | [] => .panicked
    | oldest :: reusable =>
      match tx.flows.lookup oldest with
      | none => .panicked
      | some flow =>
        -- the slot keeps its identifier, its key and its counters
        .done { tx with reusable, flows := (tx.flows.erase oldest).insert localFlow flow }
  else
    match draws.find? tx.unused with
    | none => .drawing
    | some id =>
      let codec := Tx.new A (flowKey tx.key tx.session id) tx.session
      .done { tx with flows := tx.flows.insert localFlow ⟨id, codec⟩ }

/-- A circuit that sends goes to the end of the list of those that may lose their slot. -/
def touch : FlowTx K :=
  if localFlow ∈ localLanes then tx
  else
    { tx with reusable := tx.reusable.filter (fun key => decide (key ≠ localFlow)) ++ [localFlow] }

/-- Seal a frame in the slot of its flow. -/
def sealFrame (frame : Octets) (innerCeiling : ℕ) :
    Outcome (Except RealtimeDatagramError (List Octets) × FlowTx K) :=
  match tx.flows.lookup localFlow with
  | none => .panicked
  | some flow =>
    let (packets, codec) := flow.codec.encodeFrame A frame innerCeiling
    .done (packets.map (List.map flow.wrap),
      { tx with flows := tx.flows.insert localFlow { flow with codec } })

/-- A frame as packets of its flow. -/
def encodeFrame (frame : Octets) (ceiling : ℕ) (draws : List FlowId) :
    Outcome (Except RealtimeDatagramError (List Octets) × FlowTx K) :=
  if frame = [] ∨ maxRealtimeFrame < frame.length then .done (.error (.frameSize frame.length), tx)
  else if ceiling < prefixLen + 41 then .done (.error (.datagramTooSmall ceiling), tx)
  else
    match flowFragmentCount frame.length ceiling with
    | .error e => .done (.error e, tx)
    | .ok _ =>
      match tx.bindFlow A flowKey localFlow draws with
      | .drawing => .drawing
      | .panicked => .panicked
      | .done tx => (tx.touch localFlow).sealFrame A localFlow frame (ceiling - prefixLen)

/-- New keys for all flows. -/
def rekey (tx : FlowTx K) (key session : FixedBytes 32) : FlowTx K :=
  { tx with
    key
    session
    flows := tx.flows.map fun _ flow =>
      { flow with codec := flow.codec.rekey A (flowKey key session flow.id) session } }

end FlowTx

/-- `SessionDatagramTx`: one of the two formats. -/
inductive SessionTx (K : Type) where
  | legacy (tx : Tx K)
  | flows (tx : FlowTx K)

namespace SessionTx

def new (key session : FixedBytes 32) (flows : Bool) : SessionTx K :=
  if flows then .flows (FlowTx.new key session) else .legacy (Tx.new A key session)

def encodeFrame (tx : SessionTx K) (localFlow : ℕ) (frame : Octets) (ceiling : ℕ)
    (draws : List FlowId) : Outcome (Except RealtimeDatagramError (List Octets) × SessionTx K) :=
  match tx with
  | legacy tx =>
    let (packets, tx) := tx.encodeFrame A frame ceiling
    .done (packets, .legacy tx)
  | flows tx =>
    match tx.encodeFrame A flowKey localFlow frame ceiling draws with
    | .drawing => .drawing
    | .panicked => .panicked
    | .done (packets, tx) => .done (packets, .flows tx)

def rekey (tx : SessionTx K) (key session : FixedBytes 32) : SessionTx K :=
  match tx with
  | legacy tx => .legacy (tx.rekey A key session)
  | flows tx => .flows (tx.rekey A flowKey key session)

end SessionTx

/-! ### The receiver -/

structure RetiredKey where
  key : FixedBytes 32
  session : FixedBytes 32
  rotatedAt : ℕ

/-- `FlowDatagramRx`. -/
structure FlowRx (K : Type) where
  key : FixedBytes 32
  session : FixedBytes 32
  previous : Option RetiredKey
  flows : Table FlowId (Rx K)

namespace FlowRx

def new (key session : FixedBytes 32) : FlowRx K := ⟨key, session, none, ∅⟩

variable (rx : FlowRx K)

/-- A receiver for a flow that is new, with the end of the grace as it was at the rotation. -/
def freshReceiver (id : FlowId) : Rx K :=
  let make (key session : FixedBytes 32) : Rx K :=
    .withLimits A (flowKey key session id) session (maxAssemblies / maxFlows)
      (maxAssemblyBytes / maxFlows)
  match rx.previous with
  | some old =>
    (make old.key old.session).rekey A (flowKey rx.key rx.session id) rx.session old.rotatedAt
  | none => make rx.key rx.session

/-- Expiry in every flow, and of the key before the last rotation. -/
def expire (now : ℕ) : FlowRx K :=
  { rx with
    flows := rx.flows.map fun _ flow => flow.prune now
    previous := rx.previous.filter fun old => decide (now - old.rotatedAt < realtimeRekeyGrace) }

/-- A datagram for the flow of an identifier; one that is new takes a slot only once a datagram
was opened under it. -/
def dispatch (id : FlowId) (packet : Octets) (now : ℕ) (tie : ℕ → ℕ) :
    Except RealtimeDatagramError (Option Octets) × FlowRx K :=
  match rx.flows.lookup id with
  | some flow =>
    let (result, flow) := flow.decodeDatagram A packet now tie
    (result, { rx with flows := rx.flows.insert id flow })
  | none =>
    if maxFlows ≤ rx.flows.size then (.error .flowCapacity, rx)
    else
      match (rx.freshReceiver A flowKey id).decodeDatagram A packet now tie with
      | (.error e, _) => (.error e, rx)
      | (.ok frame, flow) => (.ok frame, { rx with flows := rx.flows.insert id flow })

/-- The last packet of a frame gives the frame. -/
def decodeDatagram (packet : Octets) (now : ℕ) (tie : ℕ → ℕ) :
    Except RealtimeDatagramError (Option Octets) × FlowRx K :=
  let rx := rx.expire now
  if packet.length < minFlowDatagramSize ∨ packet.take 4 ≠ flowMagic then (.error .malformed, rx)
  else
    match FixedBytes.read 16 (packet.drop 4) with
    | none => (.error .malformed, rx)
    | some (id, packet) =>
      if id = FixedBytes.replicate 16 0 then (.error .malformed, rx)
      else rx.dispatch A flowKey id packet now tie

/-- The old keys stay for a while. -/
def rekey (rx : FlowRx K) (key session : FixedBytes 32) (now : ℕ) : FlowRx K where
  key
  session
  previous := some ⟨rx.key, rx.session, now⟩
  flows := rx.flows.map fun id flow => flow.rekey A (flowKey key session id) session now

end FlowRx

end Model

/-! ### Slots -/

namespace FlowTx

variable {flowKey : FixedBytes 32 → FixedBytes 32 → FlowId → FixedBytes 32} {tx tx' : FlowTx K}
  {localFlow ceiling : ℕ} {frame : Octets} {draws : List FlowId}

/-- The slots are in order: no two share an identifier, those of circuits may be taken over,
and there are no more than sixteen. -/
structure Slotted (tx : FlowTx K) : Prop where
  ids : ∀ a b f g, tx.flows.lookup a = some f → tx.flows.lookup b = some g → f.id = g.id → a = b
  reusable : ∀ a, a ∈ tx.reusable ↔ (tx.flows.lookup a).isSome ∧ a ∉ localLanes
  nodup : tx.reusable.Nodup
  size : tx.flows.size ≤ maxFlows

variable (A flowKey tx localFlow) in
/-- How a local flow comes to its slot. -/
inductive Bound : FlowTx K → Prop
  | kept (hbound : (tx.flows.lookup localFlow).isSome) : Bound tx
  | taken {oldest : ℕ} {reusable : List ℕ} {flow : TxFlow K}
      (hnew : tx.flows.lookup localFlow = none) (hold : tx.reusable = oldest :: reusable)
      (hflow : tx.flows.lookup oldest = some flow) :
      Bound { tx with reusable, flows := (tx.flows.erase oldest).insert localFlow flow }
  | drawn {id : FlowId} (hnew : tx.flows.lookup localFlow = none)
      (hroom : tx.flows.size < maxFlows) (hunused : tx.unused id = true) :
      Bound { tx with
        flows := tx.flows.insert localFlow
          ⟨id, Tx.new A (flowKey tx.key tx.session id) tx.session⟩ }

variable (A flowKey localFlow draws) in
/-- **A slot is found**: where there is no free one, some circuit holds one. -/
theorem Slotted.bindFlow_cases (h : tx.Slotted) :
    tx.bindFlow A flowKey localFlow draws = .drawing ∨
      ∃ tx', tx.bindFlow A flowKey localFlow draws = .done tx' ∧
        Bound A flowKey tx localFlow tx' := by
  rw [bindFlow]
  split
  next hbound => exact .inr ⟨tx, rfl, .kept hbound⟩
  next hnew =>
  rw [Bool.not_eq_true, isSome_eq_false_iff, isNone_iff_eq_none] at hnew
  have habsent : tx.absentLanes localFlow ≤ 2 := length_filter_le _ localLanes
  split
  next hfull =>
    cases hold : tx.reusable with
    | nil =>
      -- then only lanes are bound, and there are two
      have hkeys : tx.flows.keys ⊆ localLanes := by
        intro a ha
        obtain ⟨f, hf⟩ := mem_keys_iff.mp ha
        by_contra hlane
        have hmem := (h.reusable a).mpr ⟨by rw [hf]; rfl, hlane⟩
        rw [hold] at hmem
        cases hmem
      have hfew := (subperm_of_subset tx.flows.keys_nodup hkeys).length_le
      rw [← size_eq_length_keys] at hfew
      simp only [maxFlows, localLanes, length_cons, length_nil] at hfull hfew
      omega
    | cons oldest reusable =>
      have hmem : oldest ∈ tx.reusable := hold ▸ mem_cons_self
      obtain ⟨flow, hflow⟩ := isSome_iff_exists.mp ((h.reusable oldest).mp hmem).1
      dsimp only
      rw [hflow]
      exact .inr ⟨_, rfl, .taken hnew hold hflow⟩
  next hroom =>
    split
    · exact .inl rfl
    next id hid => exact .inr ⟨_, rfl, .drawn hnew (by omega) (find?_some hid)⟩

theorem Bound.isSome (hb : Bound A flowKey tx localFlow tx') :
    (tx'.flows.lookup localFlow).isSome := by
  cases hb with
  | kept hbound => exact hbound
  | taken | drawn =>
    rw [AList.lookup_insert]
    rfl

/-- Sending puts a circuit among those that may lose their slot, and a lane not. -/
theorem slotted_touch
    (hids : ∀ a b f g, tx.flows.lookup a = some f → tx.flows.lookup b = some g → f.id = g.id →
      a = b)
    (hreusable : ∀ a, a ≠ localFlow →
      (a ∈ tx.reusable ↔ (tx.flows.lookup a).isSome ∧ a ∉ localLanes))
    (hlane : localFlow ∈ localLanes → localFlow ∉ tx.reusable) (hnodup : tx.reusable.Nodup)
    (hsize : tx.flows.size ≤ maxFlows) (hbound : (tx.flows.lookup localFlow).isSome) :
    (tx.touch localFlow).Slotted := by
  rw [touch]
  split
  next hin =>
    refine ⟨hids, fun a => ?_, hnodup, hsize⟩
    rcases eq_or_ne a localFlow with rfl | hne
    · exact iff_of_false (hlane hin) fun ha => ha.2 hin
    · exact hreusable a hne
  next hout =>
    refine ⟨hids, fun a => ?_, ?_, hsize⟩
    · rw [mem_append, mem_filter, mem_singleton, decide_eq_true_eq]
      rcases eq_or_ne a localFlow with rfl | hne
      · exact iff_of_true (.inr rfl) ⟨hbound, hout⟩
      · rw [← hreusable a hne]
        exact ⟨fun ha => (ha.resolve_right hne).1, fun ha => .inl ⟨ha, hne⟩⟩
    · refine nodup_append.mpr ⟨hnodup.filter _, nodup_singleton _, ?_⟩
      rintro a ha b hb rfl
      rw [mem_singleton.mp hb] at ha
      exact of_decide_eq_true (mem_filter.mp ha).2 rfl

theorem Slotted.bound (h : tx.Slotted) (hb : Bound A flowKey tx localFlow tx') :
    (tx'.touch localFlow).Slotted := by
  have hsome := hb.isSome
  cases hb with
  | kept hbound =>
    exact slotted_touch h.ids (fun a _ => h.reusable a)
      (fun hin hmem => ((h.reusable localFlow).mp hmem).2 hin) h.nodup h.size hbound
  | @taken oldest reusable flow hnew hold hflow =>
    have hnodup := h.nodup
    rw [hold, nodup_cons] at hnodup
    -- only the local flow of the slot has changed
    have hlookup (a : ℕ) : ((tx.flows.erase oldest).insert localFlow flow).lookup a =
        if a = localFlow then some flow else if a = oldest then none else tx.flows.lookup a := by
      rw [lookup_insert_eq_ite, lookup_erase_eq_ite]
    refine slotted_touch ?_ ?_ ?_ hnodup.2 ?_ hsome
    · intro a b f g hf hg hid
      rw [hlookup] at hf hg
      split at hf
      next ha =>
        cases hf
        split at hg
        next hb => rw [ha, hb]
        · split at hg
          · cases hg
          next hb => exact absurd (h.ids oldest b _ g hflow hg hid).symm hb
      · split at hf
        · cases hf
        next hane =>
          split at hg
          · cases hg
            exact absurd (h.ids a oldest f _ hf hflow hid) hane
          · split at hg
            · cases hg
            · exact h.ids a b f g hf hg hid
    · intro a ha
      rw [hlookup, if_neg ha]
      have hold' := h.reusable a
      rw [hold, mem_cons] at hold'
      split
      next hao => exact iff_of_false (hao ▸ hnodup.1) fun hsome => absurd hsome.1 (by simp)
      next hao => rw [← hold', or_iff_right hao]
    · intro hin hmem
      refine ((h.reusable localFlow).mp ?_).2 hin
      rw [hold]
      exact mem_cons_of_mem _ hmem
    · have hsize := size_erase_of_lookup_eq_some hflow
      have hlimit := h.size
      have hfree : (tx.flows.erase oldest).lookup localFlow = none := by
        rw [lookup_erase_eq_ite, hnew, ite_self]
      rw [size_insert_of_lookup_eq_none hfree]
      omega
  | @drawn id hnew hroom hunused =>
    have hfresh (a : ℕ) (f : TxFlow K) (hf : tx.flows.lookup a = some f) : f.id ≠ id := by
      rw [unused, Bool.and_eq_true, List.all_eq_true] at hunused
      exact of_decide_eq_true (hunused.2 ⟨a, f⟩ (lookup_eq_some_iff.mp hf))
    refine slotted_touch ?_ ?_ ?_ h.nodup ?_ hsome
    · intro a b f g hf hg hid
      rw [lookup_insert_eq_ite] at hf hg
      split at hf
      next ha =>
        cases hf
        split at hg
        next hb => rw [ha, hb]
        · exact absurd hid.symm (hfresh b g hg)
      · split at hg
        · cases hg
          exact absurd hid (hfresh a f hf)
        · exact h.ids a b f g hf hg hid
    · intro a ha
      rw [lookup_insert_eq_ite, if_neg ha]
      exact h.reusable a
    · exact fun hin hmem => ((h.reusable localFlow).mp hmem).2 hin
    · rwa [size_insert_of_lookup_eq_none hnew]

theorem flows_touch (tx : FlowTx K) (localFlow : ℕ) : (tx.touch localFlow).flows = tx.flows := by
  rw [touch]
  split <;> rfl

/-- The sender after a frame was sealed, or not, in the slot of a local flow. -/
def sealed (A : LaneAead K) (tx : FlowTx K) (localFlow : ℕ) (flow : TxFlow K) (frame : Octets)
    (ceiling : ℕ) : FlowTx K :=
  { tx.touch localFlow with
    flows := tx.flows.insert localFlow
      { flow with codec := (flow.codec.encodeFrame A frame (ceiling - prefixLen)).2 } }

variable (A flowKey localFlow ceiling frame draws) in
/-- **What a call does**: it refuses the frame and changes nothing, or it finds the slot of the
local flow and seals the frame there. No `expect` fails. -/
theorem Slotted.encodeFrame_cases (h : tx.Slotted) :
    tx.encodeFrame A flowKey localFlow frame ceiling draws = .drawing ∨
      (∃ e, flowFragmentCount frame.length ceiling = .error e ∧
        tx.encodeFrame A flowKey localFlow frame ceiling draws = .done (.error e, tx)) ∨
      ∃ n tx₁ flow, flowFragmentCount frame.length ceiling = .ok n ∧
        Bound A flowKey tx localFlow tx₁ ∧ tx₁.flows.lookup localFlow = some flow ∧
        tx.encodeFrame A flowKey localFlow frame ceiling draws =
          .done ((flow.codec.encodeFrame A frame (ceiling - prefixLen)).1.map
            (List.map flow.wrap), tx₁.sealed A localFlow flow frame ceiling) := by
  rw [FlowTx.encodeFrame]
  split
  next hframe =>
    refine .inr (.inl ⟨_, ?_, rfl⟩)
    rw [flowFragmentCount, if_pos (hframe.imp_left length_eq_zero_iff.mpr)]
  next hframe =>
  rw [← length_eq_zero_iff] at hframe
  split
  next hsmall =>
    refine .inr (.inl ⟨_, ?_, rfl⟩)
    have hle : ceiling ≤ prefixLen + fragmentOverhead := le_of_lt_succ hsmall
    rw [flowFragmentCount, if_neg hframe, if_pos hle]
  split
  next e herror => exact .inr (.inl ⟨e, herror, rfl⟩)
  next n hcount =>
  rcases h.bindFlow_cases A flowKey localFlow draws with hdrawing | ⟨tx₁, hdone, hbound⟩
  · rw [hdrawing]
    exact .inl rfl
  · obtain ⟨flow, hflow⟩ := isSome_iff_exists.mp hbound.isSome
    refine .inr (.inr ⟨n, tx₁, flow, hcount, hbound, hflow, ?_⟩)
    rw [hdone]
    dsimp only
    rw [sealFrame, flows_touch, hflow]
    rfl

/-- Slots keep their identifiers whatever becomes of their codecs. -/
theorem Slotted.congr (h : tx.Slotted) (hreusable : tx'.reusable = tx.reusable)
    (hids : ∀ a, (tx'.flows.lookup a).map TxFlow.id = (tx.flows.lookup a).map TxFlow.id) :
    tx'.Slotted := by
  have hsome (a : ℕ) : (tx'.flows.lookup a).isSome = (tx.flows.lookup a).isSome := by
    rw [← isSome_map, hids, isSome_map]
  have hold {a : ℕ} {f : TxFlow K} (hf : tx'.flows.lookup a = some f) :
      ∃ g, tx.flows.lookup a = some g ∧ g.id = f.id := by
    have := hids a
    rw [hf] at this
    exact map_eq_some_iff.mp this.symm
  refine ⟨fun a b f g hf hg hid => ?_, fun a => ?_, hreusable ▸ h.nodup, ?_⟩
  · obtain ⟨f₁, hf₁, hidf⟩ := hold hf
    obtain ⟨g₁, hg₁, hidg⟩ := hold hg
    exact h.ids a b f₁ g₁ hf₁ hg₁ (hidf.trans (hid.trans hidg.symm))
  · rw [hreusable, hsome]
    exact h.reusable a
  · exact (size_le_of_isSome fun a ha => by rwa [← hsome]).trans h.size

theorem Slotted.sealed (h : tx.Slotted) {flow : TxFlow K}
    (hbound : Bound A flowKey tx localFlow tx') (hflow : tx'.flows.lookup localFlow = some flow) :
    (tx'.sealed A localFlow flow frame ceiling).Slotted := by
  refine (h.bound hbound).congr rfl fun a => ?_
  rw [FlowTx.sealed, flows_touch]
  rw [lookup_insert_eq_ite]
  split
  next ha => rw [ha, hflow, map_some, map_some]
  · rfl

theorem Slotted.encodeFrame (h : tx.Slotted) :
    tx.encodeFrame A flowKey localFlow frame ceiling draws ≠ .panicked ∧
      ∀ packets tx', tx.encodeFrame A flowKey localFlow frame ceiling draws =
        .done (packets, tx') → tx'.Slotted := by
  rcases h.encodeFrame_cases A flowKey localFlow ceiling frame draws with
    hout | ⟨e, -, hout⟩ | ⟨n, tx₁, flow, -, hbound, hflow, hout⟩
  · rw [hout]
    exact ⟨nofun, nofun⟩
  · rw [hout]
    refine ⟨nofun, fun packets tx' hdone => ?_⟩
    cases hdone
    exact h
  · rw [hout]
    refine ⟨nofun, fun packets tx' hdone => ?_⟩
    cases hdone
    exact h.sealed hbound hflow

theorem Slotted.rekey (h : tx.Slotted) (key session : FixedBytes 32) :
    (tx.rekey A flowKey key session).Slotted := by
  refine h.congr rfl fun a => ?_
  rw [FlowTx.rekey]
  rw [lookup_map, Option.map_map]
  rfl

theorem slotted_new (key session : FixedBytes 32) : (new key session : FlowTx K).Slotted where
  ids _ _ _ _ hf := absurd hf (by simp [new])
  reusable _ := by simp [new]
  nodup := nodup_nil
  size := zero_le _

end FlowTx

/-! ### Sizes told in advance -/

section Sizes

variable {flowKey : FixedBytes 32 → FixedBytes 32 → FlowId → FixedBytes 32} {frame : Octets}

variable (tx : SessionTx K)

end Sizes

namespace FlowTx

variable {flowKey : FixedBytes 32 → FixedBytes 32 → FlowId → FixedBytes 32} {tx tx' : FlowTx K}
  {localFlow ceiling : ℕ} {frame : Octets} {draws : List FlowId}

/-- The codec of a slot is one there was, or a new one. -/
theorem Bound.codec (hb : Bound A flowKey tx localFlow tx') {flow : TxFlow K}
    (hflow : tx'.flows.lookup localFlow = some flow) :
    (∃ a, tx.flows.lookup a = some flow) ∨ flow.codec.nextSequence = 1 := by
  cases hb with
  | kept hbound => exact .inl ⟨localFlow, hflow⟩
  | @taken oldest reusable flow' hnew hold hflow' =>
    rw [AList.lookup_insert] at hflow
    cases hflow
    exact .inl ⟨oldest, hflow'⟩
  | drawn hnew hroom hunused =>
    rw [AList.lookup_insert] at hflow
    cases hflow
    exact .inr rfl

end FlowTx

end VeilNetwork.Session.Realtime
