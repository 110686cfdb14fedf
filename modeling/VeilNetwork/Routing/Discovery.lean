import VeilNetwork.Lib.Bytes
import VeilNetwork.Lib.Saturating
import VeilNetwork.Lib.Table
import Mathlib.Data.List.MinMax

/-!
# The route discovery forwarder

A node that receives a discovery packet checks its proof of work and its timestamp, spends the
stamp (a solved proof is to be honoured once by a forwarder), charges a global and a per-source
token bucket, and then answers the packet or passes it on along a biased random walk.

Three things outside this component are parameters: the hash (`blake3`), the arithmetic of
floating-point numbers (`Arith`), on which nothing below depends, and the two clocks. An instant
is a number of nanoseconds; a call of `handle` reads each clock once.
-/

namespace VeilNetwork.Routing

/-! ### Token buckets -/

/-- The operations of a floating-point type. `secs` is the length of a duration in seconds. -/
structure Arith (F : Type) where
  ofNat : ℕ → F
  add : F → F → F
  sub : F → F → F
  mul : F → F → F
  div : F → F → F
  min : F → F → F
  le : F → F → Bool
  lt : F → F → Bool
  secs : ℕ → F

/-- A token bucket. -/
structure TokenBucket (F : Type) where
  tokens : F
  capacity : F
  refillRate : F
  lastRefill : ℕ
deriving DecidableEq

namespace TokenBucket

variable {F : Type} (A : Arith F)

def new (capacity refillRate : F) (now : ℕ) : TokenBucket F :=
  let capacity := if A.lt (A.ofNat 0) capacity then capacity else A.ofNat 1
  let refillRate := if A.lt (A.ofNat 0) refillRate then refillRate else A.ofNat 1
  ⟨capacity, capacity, refillRate, now⟩

variable (b : TokenBucket F)

def refill (now : ℕ) : TokenBucket F :=
  let elapsed := A.secs (now - b.lastRefill)
  { b with
    tokens := A.min (A.add b.tokens (A.mul elapsed b.refillRate)) b.capacity
    lastRefill := now }

def allowNAt (n : F) (now : ℕ) : Bool × TokenBucket F :=
  let b := b.refill A now
  if A.le n b.tokens then (true, { b with tokens := A.sub b.tokens n }) else (false, b)

def allowAt (now : ℕ) : Bool × TokenBucket F := b.allowNAt A (A.ofNat 1) now

end TokenBucket

/-! ### The proof of work -/

/-- Nanoseconds in a second. -/
def nanos : ℕ := 1000000000

def discoveryPowConservativeHashRate : ℕ := 50000
def discoveryPowMinWindowSecs : ℕ := 600

def discoveryPowWindowSecs (difficulty : UInt8) : ℕ :=
  if difficulty = 0 then discoveryPowMinWindowSecs
  else
    let expectedHashes := if difficulty.toNat < 64 then 2 ^ difficulty.toNat else Saturating.u64Max
    let expectedSolveSecs := expectedHashes / discoveryPowConservativeHashRate
    max (Saturating.mul64 expectedSolveSecs 10) discoveryPowMinWindowSecs

def leadingZeroBits : List UInt8 → ℕ
  | [] => 0
  | b :: l =>
    if Bytes.leadingZeros b = 8 then 8 + leadingZeroBits l else Bytes.leadingZeros b

/-- The two fields a proof of work is solved for, with the solution: the stamp of a packet. -/
structure Stamp where
  srcNodeId : NodeId
  timestamp : UInt64
  powNonce : FixedBytes 32
deriving DecidableEq

/-- What is hashed of a stamp. -/
def Stamp.bytes (s : Stamp) : List UInt8 :=
  s.srcNodeId.1 ++ Bytes.toBe 8 s.timestamp.toNat ++ s.powNonce.1

/-- The timestamp is within the window of the clock, on either side. -/
def Stamp.InWindow (s : Stamp) (difficulty : UInt8) (nowSecs : ℕ) : Prop :=
  nowSecs - s.timestamp.toNat ≤ discoveryPowWindowSecs difficulty ∧
    s.timestamp.toNat - nowSecs ≤ discoveryPowWindowSecs difficulty

instance (s : Stamp) (difficulty : UInt8) (nowSecs : ℕ) :
    Decidable (s.InWindow difficulty nowSecs) :=
  inferInstanceAs (Decidable (_ ∧ _))

section Hash

variable (blake3 : List UInt8 → FixedBytes 32)

/-- A fresh stamp with enough work in it. -/
def verifyDiscoveryPow (s : Stamp) (difficulty : UInt8) (nowSecs : ℕ) : Bool :=
  if ¬s.InWindow difficulty nowSecs then false
  else if difficulty = 0 then true
  else difficulty.toNat ≤ leadingZeroBits (blake3 s.bytes).1

/-- The identity of a solved stamp. -/
def powStampId (s : Stamp) : FixedBytes 32 := blake3 s.bytes

end Hash

/-! ### Spent stamps -/

def maxDiscoveryPowSeen : ℕ := 8192

/-- The stamps this node has honoured, with the instant of each. -/
structure SpentPowStamps where
  seen : Table (FixedBytes 32) ℕ

namespace SpentPowStamps

variable (s : SpentPowStamps)

/-- A stamp that is older than `ttl` counts as forgotten. -/
def isSpent (stamp : FixedBytes 32) (now ttl : ℕ) : Bool :=
  match s.seen.lookup stamp with
  | some firstSeen => decide (now - firstSeen < ttl)
  | none => false

/-- Drop what is older than `ttl`. -/
def purge (now ttl : ℕ) : SpentPowStamps :=
  ⟨s.seen.retain fun _ t => decide (now - t < ttl)⟩

/-- Drop the oldest stamp. -/
def dropOldest : SpentPowStamps :=
  match s.seen.entries.argmin fun e => e.2 with
  | some e => ⟨s.seen.erase e.1⟩
  | none => s

/-- Room for one more stamp. -/
def makeRoom (now ttl : ℕ) : SpentPowStamps :=
  if maxDiscoveryPowSeen ≤ s.seen.size then
    let s := s.purge now ttl
    if maxDiscoveryPowSeen ≤ s.seen.size then s.dropOldest else s
  else s

/-- Spend a stamp, once. -/
def claim (stamp : FixedBytes 32) (now ttl : ℕ) : Bool × SpentPowStamps :=
  if s.isSpent stamp now ttl then (false, s)
  else (true, ⟨(s.makeRoom now ttl).seen.insert stamp now⟩)

end SpentPowStamps

/-! ### The forwarder -/

inductive NodeRole where
  | leaf
  | core
deriving DecidableEq

structure DiscoveryNeighbor where
  nodeId : NodeId
  role : NodeRole
deriving DecidableEq

/-- A discovery packet: its stamp and the hops it may still take. -/
structure RouteDiscoveryPacket extends Stamp where
  ttl : UInt8
deriving DecidableEq

inductive DropReason where
  | invalidPoW
  | replayedPoW
  | rateLimited
  | noEligibleNeighbor
deriving DecidableEq

/-- What is done with a request. -/
inductive ForwardDecision where
  | drop (reason : DropReason)
  | forward (nodeId : NodeId)
  | respond
deriving DecidableEq

/-- The packet is not dropped by the proof check or the stamp check. -/
def ForwardDecision.PastStampCheck (d : ForwardDecision) : Prop :=
  d ≠ .drop .invalidPoW ∧ d ≠ .drop .replayedPoW

instance (d : ForwardDecision) : Decidable d.PastStampCheck := inferInstanceAs (Decidable (_ ∧ _))

def maxDiscoveryRateEntries : ℕ := 4096
def discoveryRateBurst : ℕ := 3
def discoveryRateRefillSecs : ℕ := 600
def discoveryGlobalRateBurst : ℕ := 50

/-- A node that forwards requests. -/
structure DiscoveryForwarder (F : Type) where
  localId : NodeId
  localRole : NodeRole
  difficulty : UInt8
  perSrc : Table NodeId (TokenBucket F)
  global : TokenBucket F
  spentPow : SpentPowStamps
  rng : UInt64

/-- The XOR distance by the first 16 bytes. -/
def xorDistanceKey (a b : NodeId) : ℕ := Bytes.ofBe (a.1.take 16) ^^^ Bytes.ofBe (b.1.take 16)

/-- The last of the elements with the largest key. -/
def maxByKey {α : Type} (key : α → ℕ) (l : List α) : Option α :=
  l.foldl (fun best a =>
    match best with
    | none => some a
    | some b => if key b ≤ key a then some a else some b) none

namespace DiscoveryForwarder

variable {F : Type} (A : Arith F) (blake3 : List UInt8 → FixedBytes 32)

def new (localId : NodeId) (localRole : NodeRole) (difficulty : UInt8) (now : ℕ) :
    DiscoveryForwarder F where
  localId := localId
  localRole := localRole
  difficulty := difficulty
  perSrc := ∅
  global := .new A (A.ofNat discoveryGlobalRateBurst) (A.ofNat 1) now
  spentPow := ⟨∅⟩
  rng :=
    -- the seed is read in little-endian order
    let seed := UInt64.ofNat (Bytes.ofBe (localId.1.take 8).reverse)
    if seed = 0 then 1 else seed

variable (self : DiscoveryForwarder F)

def canRespond : Bool := decide (self.localRole = .core)

def randU64 : UInt64 × DiscoveryForwarder F :=
  let x := self.rng
  let x := x ^^^ (x <<< 13)
  let x := x ^^^ (x >>> 7)
  let x := x ^^^ (x <<< 17)
  (x, { self with rng := x })

def randBool75 : Bool × DiscoveryForwarder F :=
  let (x, self) := self.randU64
  (decide (x % 4 ≠ 0), self)

/-- The buckets of the sources, with room for a source that has none. -/
def evictLru (perSrc : Table NodeId (TokenBucket F)) (src : NodeId) :
    Table NodeId (TokenBucket F) :=
  if maxDiscoveryRateEntries ≤ perSrc.size ∧ (perSrc.lookup src).isNone then
    match perSrc.entries.argmin fun e => e.2.lastRefill with
    | some e => perSrc.erase e.1
    | none => perSrc
  else perSrc

/-- The two rate limits. -/
def charge (src : NodeId) (now : ℕ) : Bool × DiscoveryForwarder F :=
  match self.global.allowAt A now with
  | (false, global) => (false, { self with global := global })
  | (true, global) =>
    let perSrc := evictLru self.perSrc src
    let bucket := (perSrc.lookup src).getD (.new A (A.ofNat discoveryRateBurst)
      (A.div (A.ofNat 1) (A.ofNat discoveryRateRefillSecs)) now)
    let (allowed, bucket) := bucket.allowAt A now
    (allowed, { self with global := global, perSrc := perSrc.insert src bucket })

variable (pkt : RouteDiscoveryPacket) (sender : NodeId) (neighbors : List DiscoveryNeighbor)

/-- The neighbours a packet may be passed to. -/
def candidates : List DiscoveryNeighbor :=
  neighbors.filter fun n =>
    decide (n.nodeId ≠ sender ∧ n.nodeId ≠ self.localId ∧ n.nodeId ≠ pkt.srcNodeId) &&
      decide (n.role ≠ .leaf)

/-- The next hop: three times in four the candidate farthest from the source, otherwise one at
random. -/
def choose (candidates : List DiscoveryNeighbor) :
    Option DiscoveryNeighbor × DiscoveryForwarder F :=
  match self.randBool75 with
  | (true, self) =>
    (maxByKey (fun n => xorDistanceKey n.nodeId pkt.srcNodeId) candidates, self)
  | (false, self) =>
    let (x, self) := self.randU64
    (candidates[x.toNat % candidates.length]?, self)

/-- The packet is answered or passed on. -/
def route : ForwardDecision × DiscoveryForwarder F :=
  if pkt.ttl.toNat - 1 = 0 then
    (if self.canRespond then .respond else .drop .noEligibleNeighbor, self)
  else
    let candidates := self.candidates pkt sender neighbors
    if candidates.isEmpty then (.drop .noEligibleNeighbor, self)
    else
      match self.choose pkt candidates with
      | (some chosen, self) => (.forward chosen.nodeId, self)
      -- not reached, there is a candidate
      | (none, self) => (.drop .noEligibleNeighbor, self)

/-- Process a packet that came in at an instant. -/
def handle (now nowSecs : ℕ) : ForwardDecision × DiscoveryForwarder F :=
  if ¬verifyDiscoveryPow blake3 pkt.toStamp self.difficulty nowSecs then
    (.drop .invalidPoW, self)
  else
    let ttl := discoveryPowWindowSecs self.difficulty * nanos
    match self.spentPow.claim (powStampId blake3 pkt.toStamp) now ttl with
    | (false, spentPow) => (.drop .replayedPoW, { self with spentPow := spentPow })
    | (true, spentPow) =>
      match { self with spentPow := spentPow }.charge A pkt.srcNodeId now with
      | (false, self) => (.drop .rateLimited, self)
      | (true, self) => self.route pkt sender neighbors

end DiscoveryForwarder

end VeilNetwork.Routing
