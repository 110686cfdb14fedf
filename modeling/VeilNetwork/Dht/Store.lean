import VeilNetwork.Dht.Routing
import VeilNetwork.Lib.AgeIndex

/-!
# The tiered store

`store.rs` with the cold tier in memory. A value lies in the hot tier or in the cold one: a put
goes into the hot tier, which demotes its oldest entry when it is full, a read promotes, and the
cold tier drops its oldest entry when it is full. Beside the values the store counts bytes, over
all and for each origin, under two optional caps.

An entry has up to three stamps: the time that orders it in its tier, which moves with it, and the
time it was first seen, which is held with a hot entry and in a table of its own for a cold one.
Times are numbers of nanoseconds; every reading of the clock is an argument. The byte counters are
natural numbers: what they count is in memory, so that it fits into 64 bits.
-/

namespace VeilNetwork.Dht

/-! ### The cold tier -/

/-- What became of a value handed to the cold tier. -/
inductive ColdPut where
  /-- Stored; with the entry that had to go, if any. -/
  | stored (evicted : Option (NodeId × List UInt8))
  /-- Not stored; the value is handed back. -/
  | failed (value : List UInt8)

/-- The second tier. -/
structure InMemoryCold where
  entries : Table NodeId (List UInt8 × ℕ)
  order : AgeIndex NodeId
  capacity : ℕ

namespace InMemoryCold

def new (capacity : ℕ) : InMemoryCold := ⟨∅, OrdMap.empty, capacity⟩

variable (c : InMemoryCold)

def get (key : NodeId) : Option (List UInt8) :=
  (c.entries.lookup key).map Prod.fst

def contains (key : NodeId) : Bool := (c.entries.lookup key).isSome

def len : ℕ := c.entries.size

def isEmpty : Bool := c.len == 0

def remove (key : NodeId) : InMemoryCold :=
  match c.entries.lookup key with
  | some (_, ts) => { c with entries := c.entries.erase key, order := c.order.drop ts key }
  | none => c

def evictOldest : InMemoryCold × Option (NodeId × List UInt8) :=
  match c.order.pairs.head? with
  | some (ts, key) =>
    ({ c with entries := c.entries.erase key, order := c.order.drop ts key },
      (c.get key).map fun v => (key, v))
  | none => (c, none)

/-- `put`, at the time `ts`. -/
def put (key : NodeId) (value : List UInt8) (ts : ℕ) : InMemoryCold × ColdPut :=
  -- a new key in a full tier takes the place of the oldest entry
  let r := if c.capacity ≤ c.len ∧ ¬c.contains key then c.evictOldest else (c, none)
  let c := r.1.remove key
  ({ c with entries := c.entries.insert key (value, ts), order := c.order.add ts key },
    .stored r.2)

def iterEntriesWithTs : List (NodeId × List UInt8 × ℕ) :=
  c.entries.entries.map fun e => (e.1, e.2.1, e.2.2)

/-- `retain`: with the keys that went, and their bytes. -/
def retain (c : InMemoryCold) (f : NodeId → List UInt8 → Bool) :
    InMemoryCold × List (NodeId × ℕ) :=
  let gone := c.entries.rejected fun k e => f k e.1
  ({ c with
      entries := c.entries.retain fun k e => f k e.1
      order := gone.foldl (fun o e => o.drop e.2.2 e.1) c.order },
    gone.map fun e => (e.1, e.2.1.length))

/-- One key of `retain_newer_than`'s second loop. -/
def expire (r : InMemoryCold × List (NodeId × ℕ)) (key : NodeId) :
    InMemoryCold × List (NodeId × ℕ) :=
  match r.1.entries.lookup key with
  | some (v, _) => (r.1.remove key, r.2 ++ [(key, v.length)])
  | none => r

def retainNewerThan (cutoff : ℕ) : InMemoryCold × List (NodeId × ℕ) :=
  -- the index is in the order of the times: the walk stops at the first that is not too old
  let expiredKeys := (c.order.pairs.takeWhile fun p => decide (p.1 < cutoff)).map Prod.snd
  expiredKeys.foldl expire (c, [])

end InMemoryCold

/-! ### The store -/

/-- The origin of internal writes, which no cap is applied to. -/
def ORIGIN_INTERNAL : NodeId := FixedBytes.replicate 32 0

/-- An entry of the hot tier. -/
structure HotEntry where
  value : List UInt8
  orderTs : ℕ
  firstSeen : ℕ

/-- Two tiers, and the bytes of every origin. -/
structure TieredStore where
  hot : Table NodeId HotEntry
  hotOrder : AgeIndex NodeId
  coldFirstSeen : Table NodeId ℕ
  hotCapacity : ℕ
  cold : InMemoryCold
  totalBytes : ℕ
  maxBytes : Option ℕ
  originBytes : Table NodeId ℕ
  entryOrigin : Table NodeId NodeId
  perOriginMaxBytes : Option ℕ

/-- One entry with what a snapshot keeps of it. -/
structure StoredEntry where
  key : NodeId
  value : List UInt8
  origin : NodeId
  age : ℕ

/-- An entry of a snapshot on disk: the age is cut to whole seconds. -/
structure DhtValueSnapshot where
  key : NodeId
  value : List UInt8
  origin : NodeId
  ageSecs : ℕ

/-- The nanoseconds of a second. -/
def NANOS : ℕ := 1000000000

namespace TieredStore

/-- `new`, then `with_max_bytes` and `with_per_origin_max_bytes` where a cap is given. -/
def new (hotCapacity coldCapacity : ℕ) (maxBytes perOriginMaxBytes : Option ℕ) : TieredStore where
  hot := ∅
  hotOrder := OrdMap.empty
  coldFirstSeen := ∅
  hotCapacity := hotCapacity
  cold := .new coldCapacity
  totalBytes := 0
  maxBytes := maxBytes
  originBytes := ∅
  entryOrigin := ∅
  perOriginMaxBytes := perOriginMaxBytes

section

variable (s : TieredStore)

/-- `origin_bytes`. -/
def bytesOf (origin : NodeId) : ℕ := (s.originBytes.lookup origin).getD 0

def contains (s : TieredStore) (key : NodeId) : Bool :=
  (s.hot.lookup key).isSome || s.cold.contains key

section

variable (key : NodeId)

/-- `get_no_promote`. -/
def getNoPromote : Option (List UInt8) :=
  match s.hot.lookup key with
  | some e => some e.value
  | none => s.cold.get key

def valueBytes : ℕ :=
  match s.hot.lookup key with
  | some e => e.value.length
  | none => ((s.cold.get key).map List.length).getD 0

/-! ### Counting bytes -/

/-- Take bytes from an origin's count, and the count away where none are left. -/
def debit (m : Table NodeId ℕ) (origin : NodeId) (bytes : ℕ) : Table NodeId ℕ :=
  match m.lookup origin with
  | some slot => if slot - bytes = 0 then m.erase origin else m.insert origin (slot - bytes)
  | none => m

/-- A key no longer counts for its origin. -/
def uncharge (bytes : ℕ) : TieredStore :=
  match s.entryOrigin.lookup key with
  | some origin =>
    { s with
      entryOrigin := s.entryOrigin.erase key
      originBytes := debit s.originBytes origin bytes }
  | none => s

/-- A key counts for an origin. -/
def charge (origin : NodeId) (bytes : ℕ) : TieredStore :=
  { s with
    entryOrigin := s.entryOrigin.insert key origin
    originBytes := s.originBytes.insert origin (s.bytesOf origin + bytes) }

def accountEviction (bytes : ℕ) : TieredStore :=
  uncharge
    { s with
      totalBytes := s.totalBytes - bytes
      coldFirstSeen := s.coldFirstSeen.erase key }
    key bytes

/-! ### Moves between the tiers -/

/-- `release_cold`: whether the value is gone, and the stamp to carry on. -/
def releaseCold (bytes now : ℕ) : TieredStore × Bool × ℕ :=
  let cold := s.cold.remove key
  let firstSeen := (s.coldFirstSeen.lookup key).getD now
  if cold.contains key then ({ s with cold := cold }, false, firstSeen)
  else
    ({ s with
        cold := cold
        totalBytes := s.totalBytes - bytes
        coldFirstSeen := s.coldFirstSeen.erase key }, true, firstSeen)

end

/-- `demote_oldest_hot`; the cold tier reads the clock at `coldNow`. -/
def demoteOldestHot (coldNow : ℕ) : TieredStore :=
  match s.hotOrder.pairs.head? with
  | none => s
  | some (ts, key) =>
    match s.hot.lookup key with
    | none => s
    | some entry =>
      let replaced := ((s.cold.get key).map List.length).getD 0
      let s := { s with hot := s.hot.erase key, hotOrder := s.hotOrder.drop ts key }
      match s.cold.put key entry.value coldNow with
      | (cold, .stored evicted) =>
        let s := { s with
          cold := cold
          totalBytes := s.totalBytes - replaced
          coldFirstSeen := s.coldFirstSeen.insert key entry.firstSeen }
        match evicted with
        | some (evictedKey, evictedVal) => s.accountEviction evictedKey evictedVal.length
        | none => s
      | (cold, .failed value) =>
        -- back where it came from, under its own stamps
        { s with
          cold := cold
          hot := s.hot.insert key ⟨value, ts, entry.firstSeen⟩
          hotOrder := s.hotOrder.add ts key }

variable (key : NodeId)

/-- `insert_hot`. -/
def insertHot (value : List UInt8) (ts firstSeen coldNow : ℕ) : TieredStore :=
  let s := if s.hotCapacity ≤ s.hot.size then s.demoteOldestHot coldNow else s
  { s with
    totalBytes := s.totalBytes + value.length
    hot := s.hot.insert key ⟨value, ts, firstSeen⟩
    hotOrder := s.hotOrder.add ts key }

variable (now coldNow : ℕ)

/-- What `get` and `get_with_meta` do to the store: a value found in the cold tier goes up. -/
def promote : TieredStore :=
  match s.hot.lookup key with
  | some _ => s
  | none =>
    match s.cold.get key with
    | some value =>
      let r := s.releaseCold key value.length now
      r.1.insertHot key value now r.2.2 coldNow
    | none => s

/-- What is read moves to the first tier. -/
def get : TieredStore × Option (List UInt8) :=
  let s := s.promote key now coldNow
  (s, (s.hot.lookup key).map HotEntry.value)

def getWithMeta : TieredStore × Option (List UInt8 × ℕ) :=
  let s := s.promote key now coldNow
  (s, (s.hot.lookup key).map fun e => (e.value, e.firstSeen))

/-- The hot half of `remove`, with the bytes it frees. -/
def removeHot : TieredStore × ℕ :=
  match s.hot.lookup key with
  | some e =>
    ({ s with hot := s.hot.erase key, hotOrder := s.hotOrder.drop e.orderTs key }, e.value.length)
  | none => (s, 0)

/-- The cold half of `remove`, with the bytes it frees. -/
def removeCold : TieredStore × ℕ :=
  let coldBytes := ((s.cold.get key).map List.length).getD 0
  let cold := s.cold.remove key
  if cold.contains key then ({ s with cold := cold }, 0)
  else ({ s with cold := cold, coldFirstSeen := s.coldFirstSeen.erase key }, coldBytes)

/-- Take a value out of both tiers. -/
def remove : TieredStore :=
  let hotPart := s.removeHot key
  let coldPart := hotPart.1.removeCold key
  let removedBytes := hotPart.2 + coldPart.2
  let s := coldPart.1
  if 0 < removedBytes then
    uncharge { s with totalBytes := s.totalBytes - removedBytes } key removedBytes
  else s

/-! ### Puts -/

/-- Whether the new bytes would go past the cap, with those of the value they replace refunded. -/
def exceeds (incumbentBytes newBytes : ℕ) : Bool :=
  match s.maxBytes with
  | some cap => decide (cap < s.totalBytes - incumbentBytes + newBytes)
  | none => false

/-- One round of the loop that makes room, and whether the loop goes on. -/
def evictOne : TieredStore × Bool :=
  match s.cold.evictOldest with
  | (cold, some (evictedKey, evictedVal)) =>
    (accountEviction { s with cold := cold } evictedKey evictedVal.length, true)
  | (cold, none) =>
    let s := { s with cold := cold }
    -- a tier that holds entries and gives none up ends the loop
    if !cold.isEmpty then (s, false)
    else
      match s.hotOrder.pairs.find? fun p => decide (p.2 ≠ key) with
      | some (oldTs, oldKey) =>
        let s := { s with hotOrder := s.hotOrder.drop oldTs oldKey }
        match s.hot.lookup oldKey with
        | some e =>
          (accountEviction { s with hot := s.hot.erase oldKey } oldKey e.value.length, true)
        | none => (s, true)
      | none => (s, false)

end

/-- The loop that makes room. Each round takes one entry away, so that one round more than there
are entries is enough. -/
def makeRoom (key : NodeId) (incumbentBytes newBytes : ℕ) : ℕ → TieredStore → TieredStore
  | 0, s => s
  | rounds + 1, s =>
    if s.exceeds incumbentBytes newBytes then
      let r := s.evictOne key
      if r.2 then makeRoom key incumbentBytes newBytes rounds r.1 else r.1
    else s

variable (s : TieredStore) (key : NodeId)

/-- Whether a put goes past the cap of its origin. -/
def exceedsOrigin (newBytes : ℕ) (origin : NodeId) : Bool :=
  match s.perOriginMaxBytes with
  | some cap =>
    let existing := if s.entryOrigin.lookup key = some origin then s.valueBytes key else 0
    decide (origin ≠ ORIGIN_INTERNAL ∧ cap < s.bytesOf origin - existing + newBytes)
  | none => false

/-- `put_with_origin_at`, the stamp being `ts`. -/
def putWithOriginAt (value : List UInt8) (origin : NodeId) (ts coldNow : ℕ) : TieredStore × Bool :=
  let newBytes := value.length
  if s.exceedsOrigin key newBytes origin then (s, false)
  else if s.maxBytes.any fun cap => decide (cap < newBytes) then (s, false)
  else
    let incumbentBytes := s.valueBytes key
    let s := s.makeRoom key incumbentBytes newBytes (s.hot.size + s.cold.len + 1)
    if s.exceeds incumbentBytes newBytes then (s, false)
    else (((s.remove key).charge key origin newBytes).insertHot key value ts ts coldNow, true)

/-- `put_restored`: a value that has lived for `age`. -/
def putRestored (value : List UInt8) (origin : NodeId) (age now coldNow : ℕ) : TieredStore × Bool :=
  s.putWithOriginAt key value origin (if age ≤ now then now - age else now) coldNow

/-! ### The sweep -/

variable (now ttl : ℕ) (expired : Option (List UInt8 → Bool))

/-- Whether the sweep keeps an entry of the hot tier. -/
def keepsHot (e : HotEntry) : Bool :=
  decide (now - e.firstSeen < ttl) && !expired.any fun f => f e.value

/-- The entries of the hot tier that the sweep drops. -/
def freedHot : List (NodeId × HotEntry) :=
  s.hot.rejected fun _ e => keepsHot now ttl expired e

/-- The hot half of `retain_fresh_inner`. -/
def sweepHot : TieredStore :=
  let freed := s.freedHot now ttl expired
  let hot := s.hot.retain fun _ e => keepsHot now ttl expired e
  let hotOrder := freed.foldl (fun o e => o.drop e.2.orderTs e.1) s.hotOrder
  let freedBytes := (freed.map fun e => e.2.value.length).sum
  let s := { s with hot := hot, hotOrder := hotOrder }
  let s := freed.foldl (fun s e => s.uncharge e.1 e.2.value.length) s
  { s with totalBytes := s.totalBytes - freedBytes }

/-- One key whose own stamp is too old, of the second half of `retain_fresh_inner`. -/
def sweepStale (now : ℕ) (r : TieredStore × List (NodeId × ℕ)) (key : NodeId) :
    TieredStore × List (NodeId × ℕ) :=
  let bytes := r.1.valueBytes key
  -- no bytes here: they are taken off once, from the list of what went
  let released := r.1.releaseCold key 0 now
  (released.1, if released.2.1 then r.2 ++ [(key, bytes)] else r.2)

/-- The scan of the cold tier by value, which is made only with a predicate. -/
def sweepByValue (c : InMemoryCold) (expired : Option (List UInt8 → Bool)) :
    InMemoryCold × List (NodeId × ℕ) :=
  match expired with
  | some f => c.retain fun _ v => !f v
  | none => (c, [])

/-- What the sweep takes out of the cold tier: by value, by the time of the demotion, and by the
record's own stamp. -/
def sweepColdTier : TieredStore × List (NodeId × ℕ) :=
  let byValue := sweepByValue s.cold expired
  let s := { s with cold := byValue.1 }
  if ttl ≤ now then
    let byDemotion := s.cold.retainNewerThan (now - ttl)
    let s := { s with cold := byDemotion.1 }
    let stale := (s.coldFirstSeen.entries.filter fun e => decide (e.2 < now - ttl)).map Sigma.fst
    stale.foldl (sweepStale now) (s, byValue.2 ++ byDemotion.2)
  else (s, byValue.2)

/-- The cold half of `retain_fresh_inner`. -/
def sweepCold : TieredStore :=
  let r := s.sweepColdTier now ttl expired
  let s := r.2.foldl (fun s e =>
    uncharge { s with coldFirstSeen := s.coldFirstSeen.erase e.1 } e.1 e.2) r.1
  { s with totalBytes := s.totalBytes - (r.2.map Prod.snd).sum }

/-- `retain_fresh_inner`: without a predicate it is `retain_fresh_age_only`, with one
`retain_fresh`. -/
def retainFreshInner : TieredStore :=
  (s.sweepHot now ttl expired).sweepCold now ttl expired

/-! ### Snapshots -/

/-- `entry_meta`. -/
def entryMeta (insertedAt now : ℕ) : NodeId × ℕ :=
  ((s.entryOrigin.lookup key).getD ORIGIN_INTERNAL, now - insertedAt)

variable (now : ℕ)

def iterHotWithMeta : List StoredEntry :=
  s.hot.entries.map fun e =>
    let m := s.entryMeta e.1 e.2.firstSeen now
    ⟨e.1, e.2.value, m.1, m.2⟩

def iterWithMeta : List StoredEntry :=
  s.iterHotWithMeta now ++ s.cold.iterEntriesWithTs.map fun e =>
    let m := s.entryMeta e.1 e.2.2 now
    ⟨e.1, e.2.1, m.1, m.2⟩

/-- `snapshot_values`. The cold tier in memory does not survive a restart, so that both tiers go
into the snapshot. -/
def snapshotValues : List DhtValueSnapshot :=
  (s.iterWithMeta now).map fun e => ⟨e.key, e.value, e.origin, e.age / NANOS⟩

/-- One entry of `restore_values`, with the time the cold tier may read. -/
def restoreValue (s : TieredStore) (e : DhtValueSnapshot × ℕ) : TieredStore :=
  if s.contains e.1.key then s
  else (s.putRestored e.1.key e.1.value e.1.origin (e.1.ageSecs * NANOS) now e.2).1

/-- `restore_values`, of a node that takes part. -/
def restoreValues (entries : List (DhtValueSnapshot × ℕ)) (now : ℕ) : TieredStore :=
  entries.foldl (restoreValue now) s

end TieredStore

end VeilNetwork.Dht
