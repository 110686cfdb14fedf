import VeilNetwork.Identity.Verify
import VeilNetwork.Lib.Run
import VeilNetwork.Lib.Saturating
import VeilNetwork.Lib.Spent
import Mathlib.Data.Finset.Card

/-!
# Authenticated deliveries

A message of an identity is accepted within five minutes of its timestamp, on either side, and
once for each sender and nonce: the fingerprint of the two is kept for five minutes from the first
copy. A message that was in the past when its first copy came is too old once its fingerprint is
forgotten, and is delivered once (`AuthDeliverReplayCache.delivered_once`). A message that was
not, whose sender's clock is level with the receiver's or ahead of it, is forgotten while it is
still fresh, and is delivered again (`AuthDeliverReplayCache.delivered_twice`).
-/

namespace VeilNetwork.Identity

open Saturating (add64 u64Max)
open List hiding set

/-! ### Messages -/

def algoFalcon512 : UInt8 := 2

def authAppDeliverDomain : List UInt8 := Text.bytes "veil-auth-onion-deliver:v1" ++ [0]

def defaultAuthDeliverFreshnessSecs : ℕ := 300

def defaultAuthDeliverReplayCap : ℕ := 65536

/-- A message of an identity; the address it was sent to is not on the wire. -/
structure AuthAppDeliver where
  version : UInt8
  senderNodeId : NodeId
  sigKeyIdx : UInt16
  timestamp : UInt64
  nonce : UInt64
  appId : NodeId
  endpointId : UInt32
  data : List UInt8
  replyBlocks : List (List UInt8)
  signature : List UInt8

/-- What the sender signs. -/
def AuthAppDeliver.signingBytesWithDst (p : AuthAppDeliver) (dst : NodeId) : List UInt8 :=
  authAppDeliverDomain ++ ([p.version] ++ (p.senderNodeId.1 ++ (Bytes.toBe 2 p.sigKeyIdx.toNat ++
    (Bytes.toBe 8 p.timestamp.toNat ++ (Bytes.toBe 8 p.nonce.toNat ++ (dst.1 ++ (p.appId.1 ++
      (Bytes.toBe 4 p.endpointId.toNat ++ (p.data ++ ([UInt8.ofNat p.replyBlocks.length] ++
        p.replyBlocks.flatten))))))))))

inductive AuthDeliverError where
  | senderMismatch
  | stale (timestamp now : UInt64) (window : ℕ)
  | badKeyIndex (idx : UInt16)
  | subkeyNotValid
  | unsupportedAlgo (algo : UInt8)
  | badSignature
  | replay
  deriving DecidableEq

/-- The distance of two times. -/
def absDiff (a b : UInt64) : ℕ := (a.toNat - b.toNat) + (b.toNat - a.toNat)

/-- The device that signed, where everything is in order. -/
def verifyAuthDeliver (c : Crypto) (p : AuthAppDeliver) (senderDoc : IdentityDocument)
    (selfNodeId : NodeId) (now : UInt64) (freshnessWindowSecs : ℕ) :
    Except AuthDeliverError NodeId :=
  if p.senderNodeId ≠ senderDoc.nodeId then .error .senderMismatch
  else if freshnessWindowSecs < absDiff now p.timestamp then
    .error (.stale p.timestamp now freshnessWindowSecs)
  else
    match senderDoc.identityKeys[p.sigKeyIdx.toNat]? with
    | none => .error (.badKeyIndex p.sigKeyIdx)
    | some subkey =>
      if now < subkey.validFromUnix ∨ subkey.validUntilUnix < now then .error .subkeyNotValid
      else if subkey.algo ≠ algoEd25519 ∧ subkey.algo ≠ algoFalcon512 then
        .error (.unsupportedAlgo subkey.algo)
      else if c.verifySigRaw subkey.algo subkey.pubkey (p.signingBytesWithDst selfNodeId)
          p.signature = false then .error .badSignature
      else .ok subkey.deviceId

theorem fresh_of_verifyAuthDeliver {c : Crypto} {p : AuthAppDeliver} {doc : IdentityDocument}
    {selfNodeId device : NodeId} {now : UInt64} {window : ℕ}
    (h : verifyAuthDeliver c p doc selfNodeId now window = .ok device) :
    absDiff now p.timestamp ≤ window := by
  rw [verifyAuthDeliver] at h
  iterate 2 (split at h; · cases h)
  next hfresh => exact not_lt.mp hfresh

/-- The first of the node's addresses at which the message verifies, or else the last error. -/
def verifyAt (c : Crypto) (p : AuthAppDeliver) (doc : IdentityDocument) (now : UInt64)
    (window : ℕ) : List NodeId → Except AuthDeliverError NodeId
  | [] => .error .badSignature
  | [id] => verifyAuthDeliver c p doc id now window
  | id :: ids =>
    match verifyAuthDeliver c p doc id now window with
    | .ok device => .ok device
    | .error _ => verifyAt c p doc now window ids

theorem fresh_of_verifyAt {c : Crypto} {p : AuthAppDeliver} {doc : IdentityDocument}
    {ids : List NodeId} {device : NodeId} {now : UInt64} {window : ℕ}
    (h : verifyAt c p doc now window ids = .ok device) : absDiff now p.timestamp ≤ window := by
  fun_induction verifyAt c p doc now window ids with
  | case1 => cases h
  | case2 id => exact fresh_of_verifyAuthDeliver h
  | case3 id ids _ device' hok => exact fresh_of_verifyAuthDeliver hok
  | case4 id ids _ e herr ih => exact ih h

/-! ### The fingerprints -/

abbrev Fingerprint : Type := FixedBytes 16

structure ReplayState where
  queue : List (Fingerprint × ℕ)
  set : Finset Fingerprint

/-- The messages that were seen. -/
structure AuthDeliverReplayCache where
  seen : ReplayState
  ttlSecs : ℕ
  cap : ℕ

namespace AuthDeliverReplayCache

def withParams (ttlSecs cap : ℕ) : AuthDeliverReplayCache := ⟨⟨[], ∅⟩, ttlSecs, cap⟩

def new : AuthDeliverReplayCache :=
  withParams defaultAuthDeliverFreshnessSecs defaultAuthDeliverReplayCap

variable (c : Crypto)

def fingerprint (sender : NodeId) (nonce : UInt64) : Fingerprint :=
  ⟨(c.hash (Text.bytes "veil.auth-deliver.replay.v1" ++ (sender.1 ++
    Bytes.toBe 8 nonce.toNat))).1.take 16, by rw [List.length_take, (c.hash _).2]; rfl⟩

/-- Drop what has expired from the front. -/
def collect (now : ℕ) : List (Fingerprint × ℕ) → Finset Fingerprint → ReplayState
  | [], set => ⟨[], set⟩
  | e :: queue, set => if now < e.2 then ⟨e :: queue, set⟩ else collect now queue (set.erase e.1)

/-- Make room for one more. -/
def evict (s : ReplayState) (cap : ℕ) : ReplayState :=
  if cap ≤ s.set.card then
    match s.queue with
    | [] => s
    | e :: queue => ⟨queue, s.set.erase e.1⟩
  else s

def record (s : ReplayState) (fp : Fingerprint) (expiry : ℕ) : ReplayState :=
  ⟨s.queue ++ [(fp, expiry)], insert fp s.set⟩

/-- Refuse what was seen, and note what is new. -/
def checkAndRecord (r : AuthDeliverReplayCache) (sender : NodeId) (nonce now : UInt64) :
    Except AuthDeliverError Unit × AuthDeliverReplayCache :=
  let fp := fingerprint c sender nonce
  let s := collect now.toNat r.seen.queue r.seen.set
  if fp ∈ s.set then (.error .replay, { r with seen := s })
  else (.ok (), { r with seen := record (evict s r.cap) fp (add64 now.toNat r.ttlSecs) })

/-! ### Processing -/

/-- A delivery that comes in, with the document its sender resolves to and whether its device is
still allowed. -/
structure Arrival where
  auth : AuthAppDeliver
  senderDoc : Option IdentityDocument
  allowed : Bool
  now : UInt64

/-- A signed message. -/
structure Message where
  sender : NodeId
  nonce : UInt64
  timestamp : UInt64
  deriving DecidableEq

def Arrival.message (a : Arrival) : Message :=
  ⟨a.auth.senderNodeId, a.auth.nonce, a.auth.timestamp⟩

variable (selfNodeIds : List NodeId)

/-- The checks before the replay check. -/
def Arrival.verifies (a : Arrival) : Bool :=
  match a.senderDoc with
  | none => false
  | some doc =>
    (verifyAt c a.auth doc a.now defaultAuthDeliverFreshnessSecs selfNodeIds).isOk && a.allowed

/-- Process a delivery: whether it is delivered, and the cache after it. -/
def processAuthDeliver (r : AuthDeliverReplayCache) (a : Arrival) : Bool × AuthDeliverReplayCache :=
  if a.verifies c selfNodeIds then
    let out := checkAndRecord c r a.auth.senderNodeId a.auth.nonce a.now
    (out.1.isOk, out.2)
  else (false, r)

/-- One arrival. -/
def step (r : AuthDeliverReplayCache) (a : Arrival) :
    AuthDeliverReplayCache := (processAuthDeliver c selfNodeIds r a).2

/-- The messages that are delivered. -/
def delivered (r : AuthDeliverReplayCache) (a : Arrival) : List Message :=
  if (processAuthDeliver c selfNodeIds r a).1 then [a.message] else []

/-! ### What is kept -/

variable {c : Crypto} {selfNodeIds : List NodeId} {r : AuthDeliverReplayCache} {a : Arrival}
  {queue : List (Fingerprint × ℕ)} {set : Finset Fingerprint} {s : ReplayState} {now : ℕ}
  {log : List (Message × ℕ)}

/-- The set holds the fingerprints of the queue, each once. -/
structure Indexed (s : ReplayState) : Prop where
  nodup : (s.queue.map Prod.fst).Nodup
  mem_set : ∀ fp, fp ∈ s.set ↔ fp ∈ s.queue.map Prod.fst

theorem indexed_collect (h : Indexed ⟨queue, set⟩) : Indexed (collect now queue set) := by
  induction queue generalizing set with
  | nil => exact h
  | cons e queue ih =>
    rw [collect]
    split
    · exact h
    · obtain ⟨hnotMem, hnodup⟩ := nodup_cons.mp h.nodup
      refine ih ⟨hnodup, fun fp => ?_⟩
      rw [Finset.mem_erase, h.mem_set, map_cons, mem_cons]
      constructor
      · rintro ⟨hne, rfl | hmem⟩
        · exact absurd rfl hne
        · exact hmem
      · intro hmem
        refine ⟨?_, .inr hmem⟩
        rintro rfl
        exact hnotMem hmem

theorem queue_collect_sub : (collect now queue set).queue ⊆ queue := by
  induction queue generalizing set with
  | nil => exact List.Subset.refl _
  | cons e queue ih =>
    rw [collect]
    split
    · exact List.Subset.refl _
    · exact List.Subset.trans ih (subset_cons_self e queue)

/-- What has not expired stays. -/
theorem mem_queue_collect {e : Fingerprint × ℕ} (he : e ∈ queue) (hlive : now < e.2) :
    e ∈ (collect now queue set).queue := by
  induction queue generalizing set with
  | nil => cases he
  | cons e' queue ih =>
    rw [collect]
    split
    · exact he
    next hdead =>
      rcases mem_cons.mp he with rfl | he
      · exact absurd hlive hdead
      · exact ih he

/-- The fingerprint of a message. -/
def Message.fingerprint (c : Crypto) (m : Message) : Fingerprint :=
  AuthDeliverReplayCache.fingerprint c m.sender m.nonce

/-- A time at which a message is fresh. -/
def Message.Fresh (m : Message) (t : ℕ) : Prop :=
  t ≤ m.timestamp.toNat + defaultAuthDeliverFreshnessSecs

/-- **The state against what was delivered**, with the time until which each message is kept. -/
structure Kept (c : Crypto) (r : AuthDeliverReplayCache) (log : List (Message × ℕ)) (now : ℕ) :
    Prop where
  guards : Spent.Guards (Message.fingerprint c) Message.Fresh log now
    fun fp expiry => (fp, expiry) ∈ r.seen.queue
  indexed : Indexed r.seen
  logged : ∀ e ∈ r.seen.queue, ∃ m ∈ log, m.1.fingerprint c = e.1
  ttlSecs : r.ttlSecs = defaultAuthDeliverFreshnessSecs
  cap : r.cap = defaultAuthDeliverReplayCap

theorem kept_new : Kept c new [] 0 where
  guards := Spent.guards_nil
  indexed := ⟨nodup_nil, fun fp => by simp [new, withParams]⟩
  logged := nofun
  ttlSecs := rfl
  cap := rfl

theorem Kept.mono (h : Kept c r log now) {later : ℕ} (hle : now ≤ later) : Kept c r log later :=
  { h with guards := h.guards.mono hle fun _ _ _ hmem => hmem }

/-- Collecting loses nothing that is still kept. -/
theorem Kept.collect (h : Kept c r log now) :
    Kept c { r with seen := collect now r.seen.queue r.seen.set } log now where
  guards := h.guards.mono (le_refl now) fun _ _ hlive hmem => mem_queue_collect hmem hlive
  indexed := indexed_collect h.indexed
  logged := fun e he => h.logged e (queue_collect_sub he)
  ttlSecs := h.ttlSecs
  cap := h.cap

/-- The senders and nonces of what was delivered. -/
def pairs (messages : List Message) : Finset (NodeId × UInt64) :=
  (messages.map fun m => (m.sender, m.nonce)).toFinset

/-- The set holds no more fingerprints than there are senders and nonces. -/
theorem Kept.card_le (h : Kept c r log now) :
    r.seen.set.card ≤ (pairs (log.map Prod.fst)).card := by
  have hsub : r.seen.set ⊆
      (pairs (log.map Prod.fst)).image fun p => fingerprint c p.1 p.2 := fun fp hfp => by
    obtain ⟨e, he, rfl⟩ := mem_map.mp ((h.indexed.mem_set fp).mp hfp)
    obtain ⟨m, hm, hfp⟩ := h.logged e he
    refine Finset.mem_image.mpr ⟨(m.1.sender, m.1.nonce), ?_, hfp⟩
    exact mem_toFinset.mpr (mem_map.mpr ⟨m.1, mem_map.mpr ⟨m, hm, rfl⟩, rfl⟩)
  exact (Finset.card_le_card hsub).trans Finset.card_image_le

theorem evict_eq {cap : ℕ} (h : s.set.card < cap) : evict s cap = s := if_neg (not_le.mpr h)

/-- **A message is recorded**: it was not delivered before, and it is kept for as long as it is
fresh. -/
theorem Kept.record (h : Kept c r log now) {m : Message} (hfresh : m.Fresh now)
    (hnew : m.fingerprint c ∉ r.seen.set) {expiry : ℕ}
    (hpast : m.timestamp.toNat + defaultAuthDeliverFreshnessSecs < expiry) :
    Kept c { r with seen := record r.seen (m.fingerprint c) expiry } (log ++ [(m, expiry)])
      now where
  guards := by
    refine h.guards.honour hfresh (fun u hu => absurd ?_ hnew) (fun t ht => ht.trans_lt hpast)
      (mem_append_right _ mem_cons_self) fun fp u _ _ hmem => mem_append_left _ hmem
    exact (h.indexed.mem_set _).mpr (mem_map.mpr ⟨_, hu, rfl⟩)
  indexed := by
    rw [h.indexed.mem_set] at hnew
    refine ⟨?_, fun fp => ?_⟩
    · change ((r.seen.queue ++ [_]).map Prod.fst).Nodup
      rw [map_append]
      refine nodup_append.mpr ⟨h.indexed.nodup, nodup_singleton _, ?_⟩
      rintro fp hfp fp' hfp' rfl
      have heq : fp = m.fingerprint c := mem_singleton.mp hfp'
      exact hnew (heq ▸ hfp)
    · change fp ∈ insert _ r.seen.set ↔ fp ∈ (r.seen.queue ++ [_]).map Prod.fst
      rw [Finset.mem_insert, h.indexed.mem_set, map_append, mem_append, or_comm]
      exact or_congr_right (mem_singleton).symm
  logged := by
    intro e he
    rcases mem_append.mp he with he | he
    · obtain ⟨m', hm', hfp⟩ := h.logged e he
      exact ⟨m', mem_append_left _ hm', hfp⟩
    · obtain rfl := mem_singleton.mp he
      exact ⟨(m, expiry), mem_append_right _ mem_cons_self, rfl⟩
  ttlSecs := h.ttlSecs
  cap := h.cap

/-! ### Runs -/

theorem fresh_of_verifies (h : a.verifies c selfNodeIds = true) : a.message.Fresh a.now.toNat := by
  rw [Arrival.verifies] at h
  split at h
  · cases h
  next doc _ =>
    rw [Bool.and_eq_true, isOk_iff] at h
    obtain ⟨⟨device, hok⟩, -⟩ := h
    have hfresh := fresh_of_verifyAt hok
    rw [absDiff] at hfresh
    change _ ≤ a.auth.timestamp.toNat + _
    omega

/-- **The condition**: a message that verifies is in the past by the receiver's clock, so that it
is too old when its fingerprint is forgotten. -/
def Backdated (c : Crypto) (selfNodeIds : List NodeId) (a : Arrival) : Prop :=
  a.verifies c selfNodeIds = true →
    a.auth.timestamp.toNat + defaultAuthDeliverFreshnessSecs <
      add64 a.now.toNat defaultAuthDeliverFreshnessSecs

instance : Decidable (Backdated c selfNodeIds a) := inferInstanceAs (Decidable (_ → _))

/-- **One delivery.** -/
theorem Kept.step (h : Kept c r log a.now.toNat)
    (hfew : (pairs (log.map Prod.fst)).card < defaultAuthDeliverReplayCap)
    (hpast : Backdated c selfNodeIds a) :
    ∃ log', log'.map Prod.fst = log.map Prod.fst ++ delivered c selfNodeIds r a ∧
      Kept c (step c selfNodeIds r a) log' a.now.toNat := by
  have hcollect := h.collect
  rw [delivered, AuthDeliverReplayCache.step, processAuthDeliver]
  by_cases hverifies : a.verifies c selfNodeIds = true
  · rw [if_pos hverifies, checkAndRecord]
    by_cases hseen : fingerprint c a.auth.senderNodeId a.auth.nonce ∈
        (AuthDeliverReplayCache.collect a.now.toNat r.seen.queue r.seen.set).set
    · rw [if_pos hseen]
      exact ⟨log, (append_nil _).symm, hcollect⟩
    · rw [if_neg hseen]
      have hroom := hcollect.card_le.trans_lt hfew
      refine ⟨log ++ [(a.message, add64 a.now.toNat defaultAuthDeliverFreshnessSecs)], ?_, ?_⟩
      · rw [map_append]
        rfl
      · have hevict : evict (AuthDeliverReplayCache.collect a.now.toNat r.seen.queue r.seen.set)
            r.cap = AuthDeliverReplayCache.collect a.now.toNat r.seen.queue r.seen.set :=
          evict_eq (by rw [h.cap]; exact hroom)
        have hexpiry : add64 a.now.toNat r.ttlSecs =
            add64 a.now.toNat defaultAuthDeliverFreshnessSecs := by rw [h.ttlSecs]
        rw [hevict, hexpiry]
        exact hcollect.record (fresh_of_verifies hverifies) hseen (hpast hverifies)
  · rw [if_neg hverifies]
    exact ⟨log, (append_nil _).symm, h⟩

/-- **Whole runs.** -/
theorem Kept.run (h : Kept c r log now) {arrivals : List Arrival}
    (hclock : arrivals.Pairwise fun a b => a.now.toNat ≤ b.now.toNat)
    (hstart : ∀ a ∈ arrivals, now ≤ a.now.toNat)
    (hfew : (pairs (log.map Prod.fst ++
      Run.outputs (AuthDeliverReplayCache.step c selfNodeIds) (delivered c selfNodeIds) r
        arrivals)).card < defaultAuthDeliverReplayCap)
    (hpast : ∀ a ∈ arrivals, Backdated c selfNodeIds a) :
    (log.map Prod.fst ++ Run.outputs (AuthDeliverReplayCache.step c selfNodeIds)
      (delivered c selfNodeIds) r arrivals).Nodup := by
  induction arrivals generalizing r log now with
  | nil =>
    rw [Run.outputs, append_nil]
    exact h.guards.once
  | cons a arrivals ih =>
    obtain ⟨hlater, hclock⟩ := pairwise_cons.mp hclock
    rw [Run.outputs, ← append_assoc] at hfew ⊢
    -- what was delivered so far is among all that is delivered
    have hsub : pairs (log.map Prod.fst) ⊆ pairs (log.map Prod.fst ++ delivered c selfNodeIds r a ++
        Run.outputs (.step c selfNodeIds) (delivered c selfNodeIds)
          (.step c selfNodeIds r a) arrivals) := fun p hp => by
      rw [pairs, mem_toFinset] at hp ⊢
      rw [map_append, map_append]
      exact mem_append_left _ (mem_append_left _ hp)
    obtain ⟨log', hlog', hkept⟩ := (h.mono (hstart a mem_cons_self)).step
      ((Finset.card_le_card hsub).trans_lt hfew) (hpast a mem_cons_self)
    rw [← hlog'] at hfew ⊢
    exact ih hkept hclock hlater hfew fun b hb => hpast b (mem_cons_of_mem _ hb)

/-- **A message is delivered at most once**, in every run in which the messages that verify are in
the past by the receiver's clock. -/
theorem delivered_once (c : Crypto) (selfNodeIds : List NodeId) (arrivals : List Arrival)
    (hclock : arrivals.Pairwise fun a b => a.now.toNat ≤ b.now.toNat)
    (hfew : (pairs (Run.outputs (step c selfNodeIds) (delivered c selfNodeIds) new
      arrivals)).card < defaultAuthDeliverReplayCap)
    (hpast : ∀ a ∈ arrivals, Backdated c selfNodeIds a) :
    (Run.outputs (step c selfNodeIds) (delivered c selfNodeIds) new arrivals).Nodup :=
  Kept.run kept_new hclock (fun _ _ => Nat.zero_le _) hfew hpast

/-! ### A message that is delivered twice -/

/-- A message of the second device, signed for the node at its own address. -/
def sampleAuth (timestamp : UInt64) : AuthAppDeliver :=
  let bare : AuthAppDeliver :=
    ⟨1, sampleNodeId, 0, timestamp, 7, .replicate 32 9, 1, [5], [], []⟩
  let message := bare.signingBytesWithDst (.replicate 32 8)
  { bare with signature := sampleCrypto.sign (.replicate 32 2) message }

def sampleArrival (timestamp now : UInt64) : Arrival :=
  ⟨sampleAuth timestamp, some (sampleDocument 1000 9000 2 [sampleKey 2 9000] []), true, now⟩

def sampleDelivered (arrivals : List Arrival) : List Message :=
  Run.outputs (step sampleCrypto [.replicate 32 8]) (delivered sampleCrypto [.replicate 32 8]) new
    arrivals

theorem delivered_once_sample :
    sampleDelivered [sampleArrival 1990 2000, sampleArrival 1990 2100] =
        [⟨sampleNodeId, 7, 1990⟩] ∧
      (sampleDelivered [sampleArrival 1990 2000, sampleArrival 1990 2100]).Nodup :=
  ⟨by decide +kernel, delivered_once sampleCrypto [.replicate 32 8]
    [sampleArrival 1990 2000, sampleArrival 1990 2100] (by decide +kernel) (by decide +kernel)
    (by decide +kernel)⟩

/-- **A message is delivered twice**: its sender's clock is a minute ahead, and its second copy
comes when the fingerprint has just been forgotten. -/
theorem delivered_twice :
    sampleDelivered [sampleArrival 2060 2000, sampleArrival 2060 2300] =
      [⟨sampleNodeId, 7, 2060⟩, ⟨sampleNodeId, 7, 2060⟩] := by
  decide +kernel

end AuthDeliverReplayCache

end VeilNetwork.Identity
