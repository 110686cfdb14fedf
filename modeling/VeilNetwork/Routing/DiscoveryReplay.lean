import VeilNetwork.Lib.Run
import VeilNetwork.Lib.Spent
import VeilNetwork.Routing.Discovery
import Mathlib.Data.Finset.Card

/-!
# A solved proof of work is honoured once

The forwarder remembers a stamp for the length of the validity window, counted from the packet
that spent it, and accepts a timestamp up to one window behind the clock or ahead of it. A stamp
that was in the past when it was spent is too old once it is forgotten, and is honoured once
(`DiscoveryForwarder.stamp_honoured_once`). A stamp dated ahead of the clock is forgotten while it
is still valid, and is then honoured again (`DiscoveryForwarder.stamp_honoured_twice`).

The memory holds `maxDiscoveryPowSeen` stamps. While no more than that many valid stamps arrive it
drops only what it has forgotten already.
-/

namespace VeilNetwork.Routing

open List Table SpentPowStamps

namespace SpentPowStamps

variable {s : SpentPowStamps} {stamp k : FixedBytes 32} {now ttl t : ℕ}

/-- The stamp is kept until an instant. -/
def Keeps (s : SpentPowStamps) (ttl : ℕ) (k : FixedBytes 32) (expiry : ℕ) : Prop :=
  ∃ firstSeen, s.seen.lookup k = some firstSeen ∧ expiry = firstSeen + ttl

variable (s k now ttl) in
theorem lookup_purge :
    (s.purge now ttl).seen.lookup k = (s.seen.lookup k).filter fun t => decide (now - t < ttl) :=
  lookup_retain _ _ _

theorem lookup_of_purge (h : (s.purge now ttl).seen.lookup k = some t) :
    s.seen.lookup k = some t ∧ now - t < ttl := by
  rw [lookup_purge, Option.filter_eq_some_iff] at h
  exact ⟨h.1, of_decide_eq_true h.2⟩

theorem isSpent_iff :
    s.isSpent stamp now ttl = true ↔ ∃ t, s.seen.lookup stamp = some t ∧ now - t < ttl := by
  rw [isSpent]
  cases s.seen.lookup stamp with
  | none | some => simp

/-- A stamp that is not spent is kept no longer. -/
theorem le_of_not_isSpent (httl : 0 < ttl) (h : s.isSpent stamp now ttl = false) {u : ℕ}
    (hu : s.Keeps ttl stamp u) : u ≤ now := by
  obtain ⟨t, ht, rfl⟩ := hu
  by_contra hlt
  have hspent : s.isSpent stamp now ttl = true := isSpent_iff.mpr ⟨t, ht, by omega⟩
  rw [h] at hspent
  cases hspent

/-- **Making room loses nothing that is still kept**, when the stamps kept now and the new one are
not too many. -/
theorem makeRoom_eq (h : s.isSpent stamp now ttl = false) {ids : Finset (FixedBytes 32)}
    (hcard : ids.card ≤ maxDiscoveryPowSeen) (hsub : ∀ k t, s.seen.lookup k = some t → k ∈ ids)
    (hstamp : stamp ∈ ids) : s.makeRoom now ttl = s ∨ s.makeRoom now ttl = s.purge now ttl := by
  rw [makeRoom]
  split
  · refine .inr (if_neg (not_le.mpr ?_))
    -- what is left and the new stamp are different elements of `ids`
    have hnew : stamp ∉ (s.purge now ttl).seen.keys := fun hmem => by
      obtain ⟨t, ht⟩ := mem_keys_iff.mp hmem
      have hspent : s.isSpent stamp now ttl = true := isSpent_iff.mpr ⟨t, lookup_of_purge ht⟩
      rw [h] at hspent
      cases hspent
    have hle : (stamp :: (s.purge now ttl).seen.keys).toFinset ⊆ ids := by
      intro k hk
      rcases mem_cons.mp (mem_toFinset.mp hk) with rfl | hk
      · exact hstamp
      · obtain ⟨t, ht⟩ := mem_keys_iff.mp hk
        exact hsub k t (lookup_of_purge ht).1
    have hcount := Finset.card_le_card hle
    rw [toFinset_card_of_nodup (nodup_cons.mpr ⟨hnew, AList.keys_nodup _⟩),
      length_cons, ← size_eq_length_keys] at hcount
    omega
  · exact .inl rfl

/-- Making room drops at most what is no longer kept. -/
theorem Keeps.makeRoom {u : ℕ} (httl : 0 < ttl)
    (hroom : s.makeRoom now ttl = s ∨ s.makeRoom now ttl = s.purge now ttl) (hlive : now < u)
    (hu : s.Keeps ttl k u) : (s.makeRoom now ttl).Keeps ttl k u := by
  obtain ⟨t, ht, rfl⟩ := hu
  refine ⟨t, ?_, rfl⟩
  rcases hroom with heq | heq
  · rw [heq, ht]
  · rw [heq, lookup_purge, ht, Option.filter_some, if_pos (decide_eq_true (by omega))]

end SpentPowStamps

namespace DiscoveryForwarder

variable {F : Type} (A : Arith F) (blake3 : List UInt8 → FixedBytes 32)

/-! ### What a call does to the memory -/

section Frame

variable (self : DiscoveryForwarder F)

theorem spentPow_charge (src : NodeId) (now : ℕ) :
    (self.charge A src now).2.spentPow = self.spentPow ∧
      (self.charge A src now).2.difficulty = self.difficulty := by
  rw [charge]
  split <;> exact ⟨rfl, rfl⟩

variable (pkt : RouteDiscoveryPacket)

theorem spentPow_choose (l : List DiscoveryNeighbor) :
    (self.choose pkt l).2.spentPow = self.spentPow ∧
      (self.choose pkt l).2.difficulty = self.difficulty := by
  rw [choose]
  split
  next heq =>
    obtain ⟨-, rfl⟩ := Prod.mk.injEq .. ▸ heq
    exact ⟨rfl, rfl⟩
  next heq =>
    obtain ⟨-, rfl⟩ := Prod.mk.injEq .. ▸ heq
    exact ⟨rfl, rfl⟩

/-- What is routed is past the checks, and the memory is not consulted again. -/
theorem route_spec (sender : NodeId) (neighbors : List DiscoveryNeighbor) :
    (self.route pkt sender neighbors).1.PastStampCheck ∧
      (self.route pkt sender neighbors).2.spentPow = self.spentPow ∧
      (self.route pkt sender neighbors).2.difficulty = self.difficulty := by
  have hframe := self.spentPow_choose pkt (self.candidates pkt sender neighbors)
  rw [route]
  by_cases httl : pkt.ttl.toNat - 1 = 0
  · rw [if_pos httl]
    by_cases hcan : self.canRespond = true
    · rw [if_pos hcan]
      exact ⟨⟨by simp, by simp⟩, rfl, rfl⟩
    · rw [if_neg hcan]
      exact ⟨⟨by simp, by simp⟩, rfl, rfl⟩
  rw [if_neg httl]
  by_cases hnone : (self.candidates pkt sender neighbors).isEmpty = true
  · rw [if_pos hnone]
    exact ⟨⟨by simp, by simp⟩, rfl, rfl⟩
  · rw [if_neg hnone]
    generalize self.choose pkt (self.candidates pkt sender neighbors) = out at hframe ⊢
    rcases out with ⟨_ | chosen, self'⟩
    · exact ⟨⟨by simp, by simp⟩, hframe⟩
    · exact ⟨⟨by simp, by simp⟩, hframe⟩

end Frame

/-! ### Packets that arrive -/

/-- A packet that comes in from a neighbour at an instant. -/
structure Arrival where
  pkt : RouteDiscoveryPacket
  sender : NodeId
  neighbors : List DiscoveryNeighbor
  now : ℕ
deriving DecidableEq

/-- The unix clock runs `offset` nanoseconds ahead of the instants, and shows whole seconds. -/
def unixSecs (offset now : ℕ) : ℕ := (offset + now) / nanos

/-- A window later by one clock is a window later by the other. -/
theorem unixSecs_add_le {offset now t w : ℕ} (h : now + w * nanos ≤ t) :
    unixSecs offset now + w ≤ unixSecs offset t := by
  have hdiv : (offset + now + w * nanos) / nanos = (offset + now) / nanos + w :=
    Nat.add_mul_div_right _ _ (by decide)
  rw [unixSecs, ← hdiv]
  exact Nat.div_le_div_right (by omega)

section Run

variable (offset : ℕ) (self : DiscoveryForwarder F)

/-- The decision on a packet, and the forwarder after it. -/
def receive (e : Arrival) : ForwardDecision × DiscoveryForwarder F :=
  self.handle A blake3 e.pkt e.sender e.neighbors e.now (unixSecs offset e.now)

/-- One arrival. -/
def step (e : Arrival) : DiscoveryForwarder F :=
  (self.receive A blake3 offset e).2

/-- The stamp of a packet that gets past the stamp check. -/
def honoured (e : Arrival) : List Stamp :=
  if (self.receive A blake3 offset e).1.PastStampCheck then [e.pkt.toStamp] else []

variable (difficulty : UInt8)

/-- The proof of work and the timestamp of a packet hold when it arrives. -/
def Arrival.Valid (e : Arrival) : Prop :=
  verifyDiscoveryPow blake3 e.pkt.toStamp difficulty (unixSecs offset e.now) = true

instance (difficulty : UInt8) : DecidablePred (Arrival.Valid blake3 offset difficulty) :=
  fun _ => inferInstanceAs (Decidable (_ = true))

/-- The stamps of the packets that are valid when they arrive. -/
def validStamps (events : List Arrival) : Finset Stamp :=
  ((events.filter fun e => decide (e.Valid blake3 offset difficulty)).map
    fun e => e.pkt.toStamp).toFinset

/-- The instants a stamp is kept for. -/
def ttlNanos : ℕ := discoveryPowWindowSecs difficulty * nanos

theorem ttlNanos_pos : 0 < ttlNanos difficulty := by
  have hwindow : 0 < discoveryPowWindowSecs difficulty := by
    rw [discoveryPowWindowSecs]
    split
    · decide
    · exact lt_of_lt_of_le (by decide) (le_max_right _ _)
  exact Nat.mul_pos hwindow (by decide)

/-- **What becomes of a packet**: it is refused, or is refused as a replay, or spends its stamp. -/
theorem receive_cases (e : Arrival) :
    (¬e.Valid blake3 offset self.difficulty ∧
      self.receive A blake3 offset e = (.drop .invalidPoW, self)) ∨
    (self.spentPow.isSpent (powStampId blake3 e.pkt.toStamp) e.now (ttlNanos self.difficulty) ∧
      self.receive A blake3 offset e = (.drop .replayedPoW, self)) ∨
    (e.Valid blake3 offset self.difficulty ∧
      self.spentPow.isSpent (powStampId blake3 e.pkt.toStamp) e.now
        (ttlNanos self.difficulty) = false ∧
      (self.receive A blake3 offset e).1.PastStampCheck ∧
      (self.step A blake3 offset e).difficulty = self.difficulty ∧
      (self.step A blake3 offset e).spentPow.seen =
        (self.spentPow.makeRoom e.now (ttlNanos self.difficulty)).seen.insert
          (powStampId blake3 e.pkt.toStamp) e.now) := by
  rw [step, receive, handle]
  by_cases hvalid : e.Valid blake3 offset self.difficulty
  · have hverified : ¬¬verifyDiscoveryPow blake3 e.pkt.toStamp self.difficulty
        (unixSecs offset e.now) = true := not_not.mpr hvalid
    rw [if_neg hverified]
    dsimp only
    rw [← ttlNanos, claim]
    rcases hspent : self.spentPow.isSpent (powStampId blake3 e.pkt.toStamp) e.now
      (ttlNanos self.difficulty) with _ | _
    · refine .inr (.inr ⟨hvalid, rfl, ?_⟩)
      rw [if_neg Bool.false_ne_true]
      dsimp only
      obtain ⟨spent, hmem⟩ : ∃ spent : SpentPowStamps, spent =
        ⟨(self.spentPow.makeRoom e.now (ttlNanos self.difficulty)).seen.insert
          (powStampId blake3 e.pkt.toStamp) e.now⟩ := ⟨_, rfl⟩
      rw [← hmem]
      have hframe := spentPow_charge A { self with spentPow := spent } e.pkt.srcNodeId e.now
      generalize charge A { self with spentPow := spent } e.pkt.srcNodeId e.now = out at hframe ⊢
      rcases out with ⟨_ | _, self'⟩
      · exact ⟨⟨by simp, by simp⟩, hframe.2, by rw [hframe.1, hmem]⟩
      · obtain ⟨hpast, hspentPow, hdifficulty⟩ := self'.route_spec e.pkt e.sender e.neighbors
        exact ⟨hpast, hdifficulty.trans hframe.2, by rw [hspentPow, hframe.1, hmem]⟩
    · exact .inr (.inl ⟨rfl, rfl⟩)
  · exact .inl ⟨hvalid, if_pos hvalid⟩

/-! ### The memory over a run -/

/-- The forwarder after the stamps of a list were honoured, each kept until an instant. -/
structure Once (difficulty : UInt8) (ids : Finset (FixedBytes 32)) (fwd : DiscoveryForwarder F)
    (log : List (Stamp × ℕ)) (now : ℕ) : Prop where
  enforced : fwd.difficulty = difficulty
  guards : Spent.Guards (powStampId blake3)
    (fun s t => s.InWindow difficulty (unixSecs offset t)) log now
    (fwd.spentPow.Keeps (ttlNanos difficulty))
  known : ∀ k t, fwd.spentPow.seen.lookup k = some t → k ∈ ids

variable {A blake3 offset} {difficulty : UInt8} {ids : Finset (FixedBytes 32)}
  {self : DiscoveryForwarder F} {log : List (Stamp × ℕ)} {now : ℕ} {e : Arrival}

theorem Arrival.Valid.inWindow (h : e.Valid blake3 offset difficulty) :
    e.pkt.InWindow difficulty (unixSecs offset e.now) := by
  by_contra hout
  rw [Arrival.Valid, verifyDiscoveryPow, if_pos hout] at h
  cases h

/-- A stamp from the past is too old once it is forgotten. -/
theorem covered_of_past (hpast : e.pkt.timestamp.toNat < unixSecs offset e.now) {t : ℕ}
    (ht : e.pkt.InWindow difficulty (unixSecs offset t)) : t < e.now + ttlNanos difficulty := by
  by_contra hge
  have hlater : unixSecs offset e.now + discoveryPowWindowSecs difficulty ≤
      unixSecs offset t :=
    unixSecs_add_le (not_lt.mp hge)
  have hwindow := ht.1
  omega

/-- **One packet.** -/
theorem Once.step (h : Once blake3 offset difficulty ids self log now) (hle : now ≤ e.now)
    (hcard : ids.card ≤ maxDiscoveryPowSeen)
    (hid : e.Valid blake3 offset difficulty → powStampId blake3 e.pkt.toStamp ∈ ids)
    (hpast : e.Valid blake3 offset difficulty →
      e.pkt.timestamp.toNat < unixSecs offset e.now) :
    Once blake3 offset difficulty ids (self.step A blake3 offset e)
      (log ++ (self.honoured A blake3 offset e).map fun s => (s, e.now + ttlNanos difficulty))
      e.now := by
  obtain ⟨rfl, hguards, hknown⟩ := h
  have hlater := hguards.mono hle fun k u _ hu => hu
  rcases self.receive_cases A blake3 offset e with
    ⟨-, heq⟩ | ⟨-, heq⟩ | ⟨hvalid, hfresh, hdone, hdifficulty, hseen⟩
  · rw [DiscoveryForwarder.step, honoured, heq, if_neg fun hp => hp.1 rfl, map_nil,
      append_nil]
    exact ⟨rfl, hlater, hknown⟩
  · rw [DiscoveryForwarder.step, honoured, heq, if_neg fun hp => hp.2 rfl, map_nil,
      append_nil]
    exact ⟨rfl, hlater, hknown⟩
  · have hroom := makeRoom_eq hfresh hcard hknown (hid hvalid)
    have httl := ttlNanos_pos self.difficulty
    refine ⟨hdifficulty, ?_, fun k t hk => ?_⟩
    · rw [honoured, if_pos hdone]
      refine hlater.honour hvalid.inWindow
        (fun u hu => le_of_not_isSpent httl hfresh hu)
        (fun t ht => covered_of_past (hpast hvalid) ht) ?_ fun k u hne hlive hu => ?_
      · exact ⟨e.now, by rw [hseen, AList.lookup_insert], rfl⟩
      · obtain ⟨t, ht, rfl⟩ := SpentPowStamps.Keeps.makeRoom httl hroom hlive hu
        exact ⟨t, by rw [hseen, AList.lookup_insert_ne hne, ht], rfl⟩
    · rw [hseen] at hk
      rcases lookup_insert_eq_some hk with ⟨rfl, -⟩ | ⟨-, hk⟩
      · exact hid hvalid
      · rcases hroom with heq | heq
        · exact hknown k t (heq ▸ hk)
        · exact hknown k t (lookup_of_purge (heq ▸ hk)).1

/-- **All packets of a run.** -/
theorem Once.run (hcard : ids.card ≤ maxDiscoveryPowSeen) (events : List Arrival)
    (h : Once blake3 offset difficulty ids self log now)
    (hsorted : (now :: events.map Arrival.now).Pairwise (· ≤ ·))
    (hid : ∀ e ∈ events, e.Valid blake3 offset difficulty →
      powStampId blake3 e.pkt.toStamp ∈ ids)
    (hpast : ∀ e ∈ events, e.Valid blake3 offset difficulty →
      e.pkt.timestamp.toNat < unixSecs offset e.now) :
    (log.map Prod.fst ++ Run.outputs (DiscoveryForwarder.step A blake3 offset)
      (honoured A blake3 offset) self events).Nodup := by
  induction events generalizing self log now with
  | nil =>
    rw [Run.outputs, append_nil]
    exact h.guards.once
  | cons e events ih =>
    rw [pairwise_cons] at hsorted
    have hnext := ih (h.step (A := A) (hsorted.1 _ mem_cons_self) hcard
      (hid e mem_cons_self) (hpast e mem_cons_self)) hsorted.2
      (fun e' he' => hid e' (mem_cons_of_mem _ he'))
      (fun e' he' => hpast e' (mem_cons_of_mem _ he'))
    rw [Run.outputs]
    simpa [Function.comp_def] using hnext

/-- A packet that is dropped by a check leaves both rate limits alone. -/
theorem buckets_of_not_past (h : ¬(self.receive A blake3 offset e).1.PastStampCheck) :
    (self.step A blake3 offset e).global = self.global ∧
      (self.step A blake3 offset e).perSrc = self.perSrc := by
  rw [DiscoveryForwarder.step]
  rcases self.receive_cases A blake3 offset e with ⟨-, heq⟩ | ⟨-, heq⟩ | ⟨-, -, hpast, -⟩
  · rw [heq]
    exact ⟨rfl, rfl⟩
  · rw [heq]
    exact ⟨rfl, rfl⟩
  · exact absurd hpast h

end Run

/-- **A solved proof of work is honoured once**, by a forwarder of any difficulty, in every run in
which time does not go back, no more valid stamps arrive than are remembered, and a valid stamp is
dated before the second it arrives in. A copy that does not get past the stamp check is dropped for
its proof or as a replay, and charges nobody. -/
theorem stamp_honoured_once (localId : NodeId) (localRole : NodeRole) (difficulty : UInt8)
    (start offset : ℕ) (events : List Arrival)
    (hclock : (start :: events.map Arrival.now).Pairwise (· ≤ ·))
    (hcard : (validStamps blake3 offset difficulty events).card ≤ maxDiscoveryPowSeen)
    (hpast : ∀ e ∈ events, e.Valid blake3 offset difficulty →
      e.pkt.timestamp.toNat < unixSecs offset e.now) :
    (∀ stamp, (Run.outputs (step A blake3 offset) (honoured A blake3 offset)
      (new A localId localRole difficulty start) events).count stamp ≤ 1) ∧
    ∀ (self : DiscoveryForwarder F) (e : Arrival),
      ¬(self.receive A blake3 offset e).1.PastStampCheck →
        ((self.receive A blake3 offset e).1 = .drop .invalidPoW ∨
          (self.receive A blake3 offset e).1 = .drop .replayedPoW) ∧
        (self.step A blake3 offset e).global = self.global ∧
        (self.step A blake3 offset e).perSrc = self.perSrc := by
  refine ⟨fun stamp => nodup_iff_count_le_one.mp ?_ stamp, fun self e h => ⟨?_, ?_⟩⟩
  · have hstart : Once blake3 offset difficulty
        ((validStamps blake3 offset difficulty events).image (powStampId blake3))
        (new A localId localRole difficulty start) [] start :=
      ⟨rfl, Spent.guards_nil, fun k t hk => absurd hk (by simp [new])⟩
    refine hstart.run (Finset.card_image_le.trans hcard) events hclock (fun e he hvalid => ?_) hpast
    refine Finset.mem_image_of_mem _ (mem_toFinset.mpr (mem_map.mpr ⟨e, ?_, rfl⟩))
    exact mem_filter.mpr ⟨he, decide_eq_true hvalid⟩
  · rw [ForwardDecision.PastStampCheck, not_and_or, not_not, not_not] at h
    exact h
  · exact buckets_of_not_past h

/-! ### A stamp dated ahead of the clock -/

/-- Arithmetic on whole numbers. -/
def wholeArith : Arith ℕ where
  ofNat := id
  add := (· + ·)
  sub := (· - ·)
  mul := (· * ·)
  div := (· / ·)
  min := min
  le := fun a b => decide (a ≤ b)
  lt := fun a b => decide (a < b)
  secs := (· / nanos)

/-- The packet of a source, with a timestamp, on its last hop. -/
def samplePacket (src : UInt8) (timestamp : UInt64) : RouteDiscoveryPacket :=
  ⟨⟨.replicate 32 src, timestamp, .replicate 32 0⟩, 1⟩

/-- A copy of a packet that arrives from a neighbour at an instant. -/
def sampleArrival (timestamp : UInt64) (sender : UInt8) (now : ℕ) : Arrival :=
  ⟨samplePacket 7 timestamp, .replicate 32 sender, [], now⟩

/-- A core node that does not ask for any work. -/
def sampleForwarder : DiscoveryForwarder ℕ := new wholeArith (.replicate 32 1) .core 0 0

/-- The stamp of second 999 is honoured at second 1000, and no copy of it after that, not even
when it has been forgotten. -/
theorem stamp_honoured_once_sample :
    let hash := fun _ : List UInt8 => FixedBytes.replicate 32 0
    let events := [sampleArrival 999 2 (1000 * nanos), sampleArrival 999 3 (1300 * nanos),
      sampleArrival 999 3 (1600 * nanos)]
    events.map (·.Valid hash 0 0) = [True, True, False] ∧
    ∀ stamp, (Run.outputs (step wholeArith hash 0) (honoured wholeArith hash 0)
      sampleForwarder events).count stamp ≤ 1 := by
  refine ⟨?_, (stamp_honoured_once wholeArith (fun _ => .replicate 32 0) (.replicate 32 1) .core 0
    0 0 [sampleArrival 999 2 (1000 * nanos), sampleArrival 999 3 (1300 * nanos),
      sampleArrival 999 3 (1600 * nanos)] (by decide) (by decide +kernel) (by decide +kernel)).1⟩
  simp only [map_cons, map_nil, cons.injEq, eq_iff_iff, and_true]
  decide +kernel

/-- **A stamp honoured twice.** A packet of second 1600 arrives at second 1000 and is answered. It
is forgotten 600 seconds later, when it is not stale yet: the copy that arrives then is answered
too. -/
theorem stamp_honoured_twice :
    let hash := fun _ : List UInt8 => FixedBytes.replicate 32 0
    let first := sampleArrival 1600 2 (1000 * nanos)
    let copy := sampleArrival 1600 3 (1600 * nanos)
    (sampleForwarder.receive wholeArith hash 0 first).1 = .respond ∧
    ((sampleForwarder.step wholeArith hash 0 first).receive wholeArith hash 0 copy).1 = .respond ∧
    (validStamps hash 0 0 [first, copy]).card = 1 := by
  decide +kernel

end DiscoveryForwarder

end VeilNetwork.Routing
