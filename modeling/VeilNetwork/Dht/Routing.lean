import VeilNetwork.Lib.Bytes
import VeilNetwork.Lib.Run
import VeilNetwork.Lib.Table

/-!
# The Kademlia routing table

The table of `routing.rs`: 256 buckets of contacts, one for each position of the leading bit of
the XOR distance to the local node, each in the order of last contact. Parsing an address is a
parameter, and so is the outcome of a bucket's rate limit, which an untrusted insert of a new
contact has to pass.

The main result, `RoutingTable.good_run`, is about every run: a contact is in the bucket of its
distance, once, it is never the local node, and no bucket holds more than `k`.
-/

namespace VeilNetwork.Dht

open List

/-! ### The XOR distance -/

/-- `xor_distance`. -/
def xorDistance (a b : NodeId) : NodeId :=
  ⟨List.zipWith (· ^^^ ·) a.1 b.1, by rw [List.length_zipWith, a.2, b.2, Nat.min_self]⟩

/-- The search for the first byte that is not zero, from the byte numbered `i` on. -/
def bucketIndexFrom : ℕ → List UInt8 → ℕ
  | _, [] => 255
  | i, b :: bs => if b ≠ 0 then i * 8 + Bytes.leadingZeros b else bucketIndexFrom (i + 1) bs

theorem bucketIndexFrom_lt {i : ℕ} {l : List UInt8} (h : i + l.length ≤ 32) :
    bucketIndexFrom i l < 256 := by
  induction l generalizing i with
  | nil => exact Nat.lt_succ_self 255
  | cons b bs ih =>
    rw [length_cons] at h
    rw [bucketIndexFrom]
    split
    next hb =>
      rw [Bytes.leadingZeros, if_neg hb]
      omega
    · exact ih (by omega)

/-- `bucket_index`: the position of the leading bit of a distance. -/
def bucketIndex (distance : NodeId) : Fin 256 :=
  ⟨bucketIndexFrom 0 distance.1, bucketIndexFrom_lt (by rw [distance.2])⟩

/-! ### Contacts -/

/-- A node, and where to reach it. -/
structure Contact where
  nodeId : NodeId
  transport : String
  discoveryMode : UInt8
  noDhtService : Bool
  capsKnown : Bool
deriving DecidableEq

inductive IpAddr where
  | v4 (a b c d : UInt8)
  | v6 (a b c d e f g h : UInt16)

/-- A `/24` or `/48` subnet. -/
inductive SubnetKey where
  | v4 (a b c : UInt8)
  | v6 (a b c : UInt16)
deriving DecidableEq

/-- A `/16` or `/32` stand-in for an autonomous system. -/
inductive As16Key where
  | v4 (a b : UInt8)
  | v6 (a b : UInt16)
deriving DecidableEq

/-- Cut a text off the front of another. -/
def stripFront (front s : List Char) : Option (List Char) :=
  if front.isPrefixOf s then some (s.drop front.length) else none

/-- The host of a transport URL. -/
def hostFromTransport (transport : String) : String :=
  let chars := transport.toList
  let hostPart := (((stripFront "tcp://".toList chars).or (stripFront "quic://".toList chars)).or
    (stripFront "udp://".toList chars)).getD chars
  if hostPart.head? = some '[' then
    String.ofList ((hostPart.dropWhile (· = '[')).takeWhile (· ≠ ']'))
  else String.ofList (hostPart.takeWhile (· ≠ ':'))

/-- `K`. -/
def defaultK : ℕ := 20

/-- `MAX_NODES_PER_SUBNET_PER_BUCKET`. -/
def maxNodesPerSubnetPerBucket : ℕ := defaultK / 4

/-- `MAX_NODES_PER_AS16_PER_BUCKET`. -/
def maxNodesPerAs16PerBucket : ℕ := 10

/-- `STATED_CAPS_MAX`. -/
def statedCapsMax : ℕ := 4096

section Subnets

variable (parseIp : String → Option IpAddr)

def subnetOf (transport : String) : Option SubnetKey :=
  match parseIp (hostFromTransport transport) with
  | some (.v4 a b c _) => some (.v4 a b c)
  | some (.v6 a b c _ _ _ _ _) => some (.v6 a b c)
  | none => none

def as16Of (transport : String) : Option As16Key :=
  match parseIp (hostFromTransport transport) with
  | some (.v4 a b _ _) => some (.v4 a b)
  | some (.v6 a b _ _ _ _ _ _) => some (.v6 a b)
  | none => none

variable (bucket : List Contact)

def subnetCount (subnet : SubnetKey) : ℕ :=
  bucket.countP fun c => subnetOf parseIp c.transport = some subnet

def as16Count (key : As16Key) : ℕ :=
  bucket.countP fun c => as16Of parseIp c.transport = some key

/-- The subnet of a transport has its share of the bucket. -/
def subnetFull (transport : String) : Bool :=
  (subnetOf parseIp transport).any fun s =>
    maxNodesPerSubnetPerBucket ≤ subnetCount parseIp bucket s

/-- The system of a transport has its share of the bucket. -/
def as16Full (transport : String) : Bool :=
  (as16Of parseIp transport).any fun s =>
    maxNodesPerAs16PerBucket ≤ as16Count parseIp bucket s

/-! ### Making room -/

/-- Count one more contact of a subnet; its oldest position is the first one seen. -/
def countSubnet (s : SubnetKey) (i : ℕ) :
    List (SubnetKey × ℕ × ℕ) → List (SubnetKey × ℕ × ℕ)
  | [] => [(s, 1, i)]
  | (s', count, oldest) :: rest =>
    if s' = s then (s', count + 1, oldest) :: rest
    else (s', count, oldest) :: countSubnet s i rest

/-- The subnets of a bucket, with their numbers of contacts and their oldest positions. -/
def subnetStats : List (SubnetKey × ℕ × ℕ) :=
  bucket.zipIdx.foldl (fun stats p =>
    match subnetOf parseIp p.1.transport with
    | some s => countSubnet s p.2 stats
    | none => stats) []

/-- The oldest position of the first subnet with the most contacts. -/
def bestEvict (stats : List (SubnetKey × ℕ × ℕ)) : Option ℕ × ℕ :=
  stats.foldl (fun best s => if best.2 < s.2.1 then (some s.2.2, s.2.1) else best) (none, 0)

/-- Drop a contact of the most populated subnet, or the one seen longest ago. -/
def evict : List Contact :=
  match (bestEvict (subnetStats parseIp bucket)).1 with
  | some i => bucket.eraseIdx i
  | none => bucket.drop 1

/-- The bucket with a new contact, unless it is refused. -/
def admitNew (cap : ℕ) (contact : Contact) : Option (List Contact) :=
  if bucket.length < cap then
    if 1 < cap && (subnetFull parseIp bucket contact.transport ||
        as16Full parseIp bucket contact.transport) then none
    else some (bucket ++ [contact])
  else if cap = 1 then some (bucket.drop 1 ++ [contact])
  else
    match subnetOf parseIp contact.transport with
    | some s =>
      if maxNodesPerSubnetPerBucket ≤ subnetCount parseIp bucket s then none
      else if as16Full parseIp bucket contact.transport then none
      else some (evict parseIp bucket ++ [contact])
    | none => some (bucket.drop 1 ++ [contact])

end Subnets

/-! ### The table -/

/-- The contacts of a node, by distance. -/
structure RoutingTable where
  localId : NodeId
  buckets : Fin 256 → List Contact
  k : ℕ
  sketchThreshold : ℕ
  statedCaps : Table NodeId (UInt8 × Bool)
  topologyRevision : UInt64

namespace RoutingTable

def withK (localId : NodeId) (k : ℕ) : RoutingTable where
  localId := localId
  buckets := fun _ => []
  k := k
  sketchThreshold := 0
  statedCaps := ∅
  topologyRevision := 0

def setSketchThreshold (t : RoutingTable) (threshold : ℕ) : RoutingTable :=
  { t with sketchThreshold := threshold }

def setK (t : RoutingTable) (newK : ℕ) : RoutingTable :=
  { t with
    buckets := fun i => if newK < t.k then (t.buckets i).drop ((t.buckets i).length - newK)
      else t.buckets i
    k := newK }

/-- Record what a peer said about itself, or fill it in from the record. -/
def applyStatedCaps (t : RoutingTable) (contact : Contact) : RoutingTable × Contact :=
  if contact.capsKnown then
    if contact.discoveryMode = 0 ∧ contact.noDhtService = false then
      ({ t with statedCaps := t.statedCaps.erase contact.nodeId }, contact)
    else if (t.statedCaps.lookup contact.nodeId).isSome ∨ t.statedCaps.size < statedCapsMax then
      ({ t with statedCaps :=
          t.statedCaps.insert contact.nodeId (contact.discoveryMode, contact.noDhtService) },
        contact)
    else (t, contact)
  else
    match t.statedCaps.lookup contact.nodeId with
    | some (mode, noService) =>
      (t, { contact with discoveryMode := mode, noDhtService := noService, capsKnown := true })
    | none => (t, contact)

def bucketCap (t : RoutingTable) (i : ℕ) : ℕ := if i < t.sketchThreshold then 1 else t.k

/-- The bucket a node belongs to. -/
def bucketOf (t : RoutingTable) (nodeId : NodeId) : Fin 256 :=
  bucketIndex (xorDistance t.localId nodeId)

/-- Replace a bucket. -/
def setBucket (t : RoutingTable) (i : Fin 256) (bucket : List Contact) : RoutingTable :=
  { t with buckets := Function.update t.buckets i bucket }

def bump (t : RoutingTable) : RoutingTable := { t with topologyRevision := t.topologyRevision + 1 }

/-- What is kept of the entry a contact replaces. -/
def refreshed (held next : Contact) : Contact :=
  let next := if held.capsKnown && !next.capsKnown then
      { next with
        discoveryMode := held.discoveryMode
        noDhtService := held.noDhtService
        capsKnown := true }
    else next
  if next.transport.isEmpty then { next with transport := held.transport } else next

/-- The refreshed entry says something new. -/
def changed (held next : Contact) : Bool :=
  (refreshed held next).discoveryMode != held.discoveryMode ||
    (refreshed held next).noDhtService != held.noDhtService ||
    (!next.transport.isEmpty && next.transport != held.transport)

variable (parseIp : String → Option IpAddr)

/-- Insert a contact whose stated preferences are settled. -/
def place (t : RoutingTable) (contact : Contact) (bypassRateLimit admitted : Bool) :
    RoutingTable :=
  let i := t.bucketOf contact.nodeId
  let cap := if bypassRateLimit then t.k else t.bucketCap i
  let bucket := t.buckets i
  match bucket.find? fun c => c.nodeId = contact.nodeId with
  | some held =>
    let t := if changed held contact then t.bump else t
    t.setBucket i ((bucket.eraseP fun c => c.nodeId = contact.nodeId) ++ [refreshed held contact])
  | none =>
    if !bypassRateLimit && !admitted then t
    else
      match admitNew parseIp bucket cap contact with
      | none => t
      | some bucket => t.bump.setBucket i bucket

/-- `insert_inner`; `admitted` is what the bucket's rate limit says to a new contact. -/
def insertInner (t : RoutingTable) (contact : Contact) (bypassRateLimit admitted : Bool) :
    RoutingTable :=
  if contact.nodeId = t.localId then t
  else
    (t.applyStatedCaps contact).1.place parseIp (t.applyStatedCaps contact).2 bypassRateLimit
      admitted

def insert (t : RoutingTable) (contact : Contact) (admitted : Bool) : RoutingTable :=
  t.insertInner parseIp contact false admitted

def insertTrusted (t : RoutingTable) (contact : Contact) : RoutingTable :=
  t.insertInner parseIp contact true true

/-- Take a contact out. -/
def remove (t : RoutingTable) (nodeId : NodeId) : RoutingTable :=
  let i := t.bucketOf nodeId
  match (t.buckets i).find? fun c => c.nodeId = nodeId with
  | some _ => (t.setBucket i ((t.buckets i).eraseP fun c => c.nodeId = nodeId)).bump
  | none => t

/-- Insert the contacts of a snapshot, each with the outcome of its rate limit. -/
def restore (t : RoutingTable) (contacts : List (Contact × Bool)) : RoutingTable :=
  contacts.foldl (fun t c => t.insert parseIp c.1 c.2) t

/-- The contacts of all buckets. -/
def allContacts (t : RoutingTable) : List Contact := (List.finRange 256).flatMap t.buckets

/-- `RoutingTable::contact`. -/
def contact (t : RoutingTable) (nodeId : NodeId) : Option Contact :=
  t.allContacts.find? fun c => c.nodeId = nodeId

/-! ### Runs -/

/-- The calls. -/
inductive Op where
  | insert (contact : Contact) (admitted : Bool)
  | insertTrusted (contact : Contact)
  | remove (nodeId : NodeId)
  | setK (newK : ℕ)
  | setSketchThreshold (threshold : ℕ)
  | restore (contacts : List (Contact × Bool))

/-- One call. -/
def step (t : RoutingTable) : Op → RoutingTable
  | .insert contact admitted => t.insert parseIp contact admitted
  | .insertTrusted contact => t.insertTrusted parseIp contact
  | .remove nodeId => t.remove nodeId
  | .setK newK => t.setK newK
  | .setSketchThreshold threshold => t.setSketchThreshold threshold
  | .restore contacts => t.restore parseIp contacts

/-! ### What every run keeps -/

/-- **A k-bucket table**: every contact is in the bucket of its distance and is not the local
node, no bucket names a node twice, and none holds more than `k`. (A `k` of zero still leaves
room for one contact.) -/
structure Good (t : RoutingTable) : Prop where
  placed : ∀ i, ∀ c ∈ t.buckets i, c.nodeId ≠ t.localId ∧ t.bucketOf c.nodeId = i
  nodup : ∀ i, ((t.buckets i).map Contact.nodeId).Nodup
  length_le : ∀ i, (t.buckets i).length ≤ max t.k 1

variable {t : RoutingTable} {contact : Contact}

theorem Good.withK (localId : NodeId) (k : ℕ) : Good (withK localId k) where
  placed _ _ hc := absurd hc not_mem_nil
  nodup _ := nodup_nil
  length_le _ := Nat.zero_le _

variable {bucket : List Contact}

/-- A bucket may be replaced by a good one. -/
theorem Good.setBucket (h : t.Good) {i : Fin 256}
    (hplaced : ∀ c ∈ bucket, c.nodeId ≠ t.localId ∧ t.bucketOf c.nodeId = i)
    (hnodup : (bucket.map Contact.nodeId).Nodup) (hlen : bucket.length ≤ max t.k 1) :
    (t.setBucket i bucket).Good := by
  have hbuckets : ∀ j, (t.setBucket i bucket).buckets j = if j = i then bucket else t.buckets j :=
    fun j => Function.update_apply ..
  refine ⟨fun j => ?_, fun j => ?_, fun j => ?_⟩
  all_goals rw [hbuckets]; split
  next heq => exact heq ▸ hplaced
  · exact h.placed j
  · exact hnodup
  · exact h.nodup j
  · exact hlen
  · exact h.length_le j

theorem Good.bump (h : t.Good) : t.bump.Good := ⟨h.placed, h.nodup, h.length_le⟩

/-- Contacts that are only reordered or dropped stay good. -/
theorem Good.of_sublist (h : t.Good) {i : Fin 256} (hsub : bucket.Sublist (t.buckets i)) :
    (∀ c ∈ bucket, c.nodeId ≠ t.localId ∧ t.bucketOf c.nodeId = i) ∧
      (bucket.map Contact.nodeId).Nodup ∧ bucket.length ≤ max t.k 1 :=
  ⟨fun c hc => h.placed i c (hsub.subset hc), (h.nodup i).sublist (hsub.map _),
    le_trans hsub.length_le (h.length_le i)⟩

theorem Good.setK (h : t.Good) (newK : ℕ) : (t.setK newK).Good := by
  have hsub : ∀ i, ((t.setK newK).buckets i).Sublist (t.buckets i) := by
    intro i
    rw [RoutingTable.setK]
    split
    · exact drop_sublist _ _
    · exact List.Sublist.refl _
  refine ⟨fun i => (h.of_sublist (hsub i)).1, fun i => (h.of_sublist (hsub i)).2.1, fun i => ?_⟩
  change (if newK < t.k then (t.buckets i).drop ((t.buckets i).length - newK)
    else t.buckets i).length ≤ max newK 1
  have hlen := h.length_le i
  split
  · rw [length_drop]
    omega
  · omega

/-! ### New contacts -/

section Admission

variable {parseIp} {bucket bucket' : List Contact} {cap : ℕ}

variable {stats : List (SubnetKey × ℕ × ℕ)} {e : SubnetKey × ℕ × ℕ}

/-- Positions in the statistics are positions of the bucket. -/
theorem mem_countSubnet {s : SubnetKey} {i : ℕ} (he : e ∈ countSubnet s i stats) :
    e.2.2 = i ∨ ∃ e' ∈ stats, e.2.2 = e'.2.2 := by
  induction stats with
  | nil =>
    rw [countSubnet, mem_singleton] at he
    exact .inl (by rw [he])
  | cons e₀ rest ih =>
    rw [countSubnet] at he
    split at he
    · rcases mem_cons.mp he with rfl | he
      · exact .inr ⟨_, mem_cons_self, rfl⟩
      · exact .inr ⟨e, mem_cons_of_mem _ he, rfl⟩
    · rcases mem_cons.mp he with rfl | he
      · exact .inr ⟨_, mem_cons_self, rfl⟩
      · rcases ih he with heq | ⟨e', he', heq⟩
        · exact .inl heq
        · exact .inr ⟨e', mem_cons_of_mem _ he', heq⟩

theorem lt_length_of_mem_subnetStats (he : e ∈ subnetStats parseIp bucket) :
    e.2.2 < bucket.length := by
  have hfold : ∀ (l : List (Contact × ℕ)) stats, (∀ p ∈ l, p.2 < bucket.length) →
      (∀ e ∈ stats, e.2.2 < bucket.length) →
      ∀ e ∈ l.foldl (fun stats p =>
        match subnetOf parseIp p.1.transport with
        | some s => countSubnet s p.2 stats
        | none => stats) stats, e.2.2 < bucket.length := by
    intro l
    induction l with
    | nil => exact fun stats _ hstats => hstats
    | cons p l ih =>
      intro stats hl hstats
      rw [foldl_cons]
      refine ih _ (fun q hq => hl q (mem_cons_of_mem _ hq)) ?_
      intro e he
      split at he
      · rcases mem_countSubnet he with heq | ⟨e', he', heq⟩
        · exact heq ▸ hl p mem_cons_self
        · exact heq ▸ hstats e' he'
      · exact hstats e he
  refine hfold bucket.zipIdx [] (fun p hp => ?_) (nofun) e he
  obtain ⟨hlt, -⟩ := mem_zipIdx' hp
  exact hlt

theorem bestEvict_mem {i : ℕ} (h : (bestEvict stats).1 = some i) : ∃ e ∈ stats, e.2.2 = i := by
  have hfold : ∀ (l : List (SubnetKey × ℕ × ℕ)) (best : Option ℕ × ℕ),
      (l.foldl (fun best s => if best.2 < s.2.1 then (some s.2.2, s.2.1) else best) best).1 =
        some i → best.1 = some i ∨ ∃ e ∈ l, e.2.2 = i := by
    intro l
    induction l with
    | nil => exact fun best h => .inl h
    | cons s l ih =>
      intro best h
      rw [foldl_cons] at h
      rcases ih _ h with hbest | ⟨e, he, heq⟩
      · split at hbest
        · exact .inr ⟨s, mem_cons_self, Option.some.inj hbest⟩
        · exact .inl hbest
      · exact .inr ⟨e, mem_cons_of_mem _ he, heq⟩
  exact (hfold stats (none, 0) h).resolve_left nofun

variable (parseIp bucket) in
/-- **An eviction drops one contact** and keeps the order of the others. -/
theorem evict_sublist :
    (evict parseIp bucket).Sublist bucket ∧
      (evict parseIp bucket).length = bucket.length - 1 := by
  rw [evict]
  split
  next i hi =>
    obtain ⟨e, he, rfl⟩ := bestEvict_mem hi
    exact ⟨eraseIdx_sublist _ _,
      length_eraseIdx_of_lt (lt_length_of_mem_subnetStats he)⟩
  · exact ⟨drop_sublist _ _, length_drop⟩

/-- **A new contact goes to the end** of what is left of the bucket, and the bucket grows only
where it was below its capacity, or was empty. -/
theorem admitNew_eq_some (h : admitNew parseIp bucket cap contact = some bucket') :
    ∃ kept, bucket' = kept ++ [contact] ∧ kept.Sublist bucket ∧
      bucket'.length ≤ max bucket.length (max cap 1) := by
  have hone : ∀ kept : List Contact, kept.length = bucket.length - 1 → ¬bucket.length < cap →
      (kept ++ [contact]).length ≤ max bucket.length (max cap 1) := by
    intro kept hkept _
    rw [length_append, length_singleton]
    omega
  rw [admitNew] at h
  split at h
  next hroom =>
    split at h
    · cases h
    · cases h
      refine ⟨bucket, rfl, List.Sublist.refl _, ?_⟩
      rw [length_append, length_singleton]
      omega
  rename_i hfull
  have hdrop : ∃ kept, bucket.drop 1 ++ [contact] = kept ++ [contact] ∧ kept.Sublist bucket ∧
      (bucket.drop 1 ++ [contact]).length ≤ max bucket.length (max cap 1) :=
    ⟨_, rfl, drop_sublist _ _, hone _ length_drop hfull⟩
  split at h
  · cases h
    exact hdrop
  split at h
  · split at h
    · cases h
    · split at h
      · cases h
      · cases h
        obtain ⟨hsub, hlen⟩ := evict_sublist parseIp bucket
        exact ⟨_, rfl, hsub, hone _ hlen hfull⟩
  · cases h
    exact hdrop

end Admission

/-! ### Inserting -/

theorem refreshed_nodeId (held next : Contact) : (refreshed held next).nodeId = next.nodeId := by
  rw [refreshed]
  split <;> split <;> rfl

theorem refreshed_transport (held next : Contact) : (refreshed held next).transport =
    if next.transport.isEmpty then held.transport else next.transport := by
  rw [refreshed]
  split <;> split <;> rfl

/-- The entry that is found is the one that is taken out. -/
theorem eraseP_eq_of_find {nodeId : NodeId} {held : Contact}
    (hfind : bucket.find? (fun c => c.nodeId = nodeId) = some held) :
    ∃ before after, bucket = before ++ held :: after ∧
      (bucket.eraseP fun c => c.nodeId = nodeId) = before ++ after := by
  obtain ⟨hheld, before, after, rfl, hbefore⟩ := find?_eq_some_iff_append.mp hfind
  refine ⟨before, after, rfl, ?_⟩
  rw [eraseP_append_right _ (by simpa using hbefore),
    eraseP_cons_of_pos (by simpa using hheld)]

/-- The first contact with a node's name is the only one. -/
theorem nodeId_notMem_eraseP (hnodup : (bucket.map Contact.nodeId).Nodup) (nodeId : NodeId) :
    nodeId ∉ (bucket.eraseP fun c => c.nodeId = nodeId).map Contact.nodeId := by
  induction bucket with
  | nil => exact not_mem_nil
  | cons c bucket ih =>
    obtain ⟨hc, hrest⟩ := nodup_cons.mp hnodup
    by_cases heq : c.nodeId = nodeId
    · rw [eraseP_cons_of_pos (by simpa using heq)]
      exact heq ▸ hc
    · rw [eraseP_cons_of_neg (by simpa using heq), map_cons, mem_cons, not_or]
      exact ⟨fun h => heq h.symm, ih hrest⟩

/-- A contact at the end of a bucket that does not name it. -/
theorem nodup_concat {kept : List Contact} (hkept : (kept.map Contact.nodeId).Nodup)
    (contact : Contact) (hnew : contact.nodeId ∉ kept.map Contact.nodeId) :
    ((kept ++ [contact]).map Contact.nodeId).Nodup := by
  rw [map_append, nodup_append]
  refine ⟨hkept, nodup_singleton _, ?_⟩
  rintro a ha b hb rfl
  exact hnew (mem_singleton.mp hb ▸ ha)

theorem bucketCap_le (t : RoutingTable) (i : ℕ) : t.bucketCap i ≤ max t.k 1 := by
  rw [bucketCap]
  split
  · exact le_max_right _ _
  · exact le_max_left _ _

variable {parseIp}

/-- **What an insert does to the bucket of its contact**, and whether the revision moves. -/
inductive Placing (parseIp : String → Option IpAddr) (bucket : List Contact) (contact : Contact)
    (cap : ℕ) : List Contact → Bool → Prop
  | refresh {held : Contact}
    (hfind : bucket.find? (fun c => c.nodeId = contact.nodeId) = some held) :
    Placing parseIp bucket contact cap
      ((bucket.eraseP fun c => c.nodeId = contact.nodeId) ++ [refreshed held contact])
      (changed held contact)
  | refuse (hfind : bucket.find? (fun c => c.nodeId = contact.nodeId) = none) :
    Placing parseIp bucket contact cap bucket false
  | enter {bucket' : List Contact}
    (hfind : bucket.find? (fun c => c.nodeId = contact.nodeId) = none)
    (hnew : admitNew parseIp bucket cap contact = some bucket') :
    Placing parseIp bucket contact cap bucket' true

variable (parseIp) in
theorem exists_placing (t : RoutingTable) (contact : Contact) (bypassRateLimit admitted : Bool) :
    ∃ bucket moved, Placing parseIp (t.buckets (t.bucketOf contact.nodeId)) contact
        (if bypassRateLimit then t.k else t.bucketCap (t.bucketOf contact.nodeId)) bucket moved ∧
      t.place parseIp contact bypassRateLimit admitted =
        (if moved then t.bump else t).setBucket (t.bucketOf contact.nodeId) bucket := by
  have hsame : t = t.setBucket (t.bucketOf contact.nodeId)
      (t.buckets (t.bucketOf contact.nodeId)) := by
    rw [setBucket, Function.update_eq_self]
  rw [place]
  generalize (if bypassRateLimit then t.k else t.bucketCap (t.bucketOf contact.nodeId)) = cap
  split
  next hfind => exact ⟨_, _, .refresh hfind, rfl⟩
  next hfind =>
    split
    · exact ⟨_, _, .refuse hfind, hsame⟩
    split
    · exact ⟨_, _, .refuse hfind, hsame⟩
    next hnew => exact ⟨_, _, .enter hfind hnew, rfl⟩

theorem Good.place (h : t.Good) (hne : contact.nodeId ≠ t.localId)
    (bypassRateLimit admitted : Bool) :
    (t.place parseIp contact bypassRateLimit admitted).Good := by
  have hcap : (if bypassRateLimit then t.k else t.bucketCap (t.bucketOf contact.nodeId)) ≤
      max t.k 1 := by
    split
    · exact le_max_left _ _
    · exact bucketCap_le t _
  have hplaced : ∀ kept : List Contact, kept.Sublist (t.buckets (t.bucketOf contact.nodeId)) →
      ∀ c : Contact, c.nodeId = contact.nodeId → ∀ c' ∈ kept ++ [c],
        c'.nodeId ≠ t.localId ∧ t.bucketOf c'.nodeId = t.bucketOf contact.nodeId := by
    intro kept hsub c hc c' hc'
    rcases mem_append.mp hc' with hc' | hc'
    · exact (h.of_sublist hsub).1 c' hc'
    · rw [mem_singleton.mp hc', hc]
      exact ⟨hne, rfl⟩
  have hle := h.length_le (t.bucketOf contact.nodeId)
  obtain ⟨bucket, moved, hplacing, heq⟩ := exists_placing parseIp t contact bypassRateLimit admitted
  rw [heq]
  suffices hbucket : (t.setBucket (t.bucketOf contact.nodeId) bucket).Good by
    cases moved
    · exact hbucket
    · exact hbucket.bump
  cases hplacing with
  | refresh hfind =>
    -- the entry moves to the end
    rename_i held
    have hmem := mem_of_find?_eq_some hfind
    have hlen := length_eraseP_of_mem hmem (find?_some hfind)
    have hnew := nodeId_notMem_eraseP (h.nodup (t.bucketOf contact.nodeId)) contact.nodeId
    rw [← refreshed_nodeId held contact] at hnew
    have hnodup := nodup_concat (h.of_sublist eraseP_sublist).2.1 _ hnew
    rw [refreshed_nodeId] at hnodup
    refine h.setBucket (hplaced _ eraseP_sublist _ (refreshed_nodeId held contact)) hnodup ?_
    rw [length_append, hlen, length_singleton]
    omega
  | refuse =>
    obtain ⟨hplaced, hnodup, hlen⟩ := h.of_sublist (List.Sublist.refl _)
    exact h.setBucket hplaced hnodup hlen
  | enter hfind hnew =>
    obtain ⟨kept, rfl, hsub, hlen⟩ := admitNew_eq_some hnew
    have hnew : contact.nodeId ∉ kept.map Contact.nodeId := by
      intro hmem
      obtain ⟨c, hc, heq⟩ := mem_map.mp hmem
      have hnone := find?_eq_none.mp hfind c (hsub.subset hc)
      simp [heq] at hnone
    refine h.setBucket (hplaced kept hsub contact rfl)
      (nodup_concat (h.of_sublist hsub).2.1 contact hnew) (le_trans hlen ?_)
    exact Nat.max_le.mpr ⟨hle, Nat.max_le.mpr ⟨hcap, Nat.le_max_right _ _⟩⟩

variable (t contact) in
/-- Settling the stated preferences leaves the buckets, and the name and address of the contact. -/
theorem applyStatedCaps_eq :
    (∃ caps, (t.applyStatedCaps contact).1 = { t with statedCaps := caps }) ∧
      (t.applyStatedCaps contact).2.nodeId = contact.nodeId ∧
      (t.applyStatedCaps contact).2.transport = contact.transport := by
  rw [applyStatedCaps]
  split
  · split
    · exact ⟨⟨_, rfl⟩, rfl, rfl⟩
    · split
      · exact ⟨⟨_, rfl⟩, rfl, rfl⟩
      · exact ⟨⟨t.statedCaps, rfl⟩, rfl, rfl⟩
  · split <;> exact ⟨⟨t.statedCaps, rfl⟩, rfl, rfl⟩

variable (parseIp) in
/-- **What an insert does**, unless it names the local node. -/
theorem insertInner_spec (t : RoutingTable) {contact : Contact} (hne : contact.nodeId ≠ t.localId)
    (bypassRateLimit admitted : Bool) : ∃ bucket moved t',
      Placing parseIp (t.buckets (t.bucketOf contact.nodeId)) (t.applyStatedCaps contact).2
        (if bypassRateLimit then t.k else t.bucketCap (t.bucketOf contact.nodeId)) bucket moved ∧
      t.insertInner parseIp contact bypassRateLimit admitted = t' ∧
      t'.buckets = Function.update t.buckets (t.bucketOf contact.nodeId) bucket ∧
      t'.topologyRevision = (if moved then t.topologyRevision + 1 else t.topologyRevision) ∧
      t'.statedCaps = (t.applyStatedCaps contact).1.statedCaps ∧
      t'.localId = t.localId ∧ t'.k = t.k := by
  obtain ⟨⟨caps, hcaps⟩, hid, -⟩ := applyStatedCaps_eq t contact
  rw [insertInner, if_neg hne, hcaps]
  obtain ⟨bucket, moved, hplacing, heq⟩ := exists_placing parseIp
    { t with statedCaps := caps } (t.applyStatedCaps contact).2 bypassRateLimit admitted
  rw [heq, hid]
  rw [hid] at hplacing
  refine ⟨bucket, moved, _, hplacing, rfl, ?_⟩
  cases moved <;> exact ⟨rfl, rfl, rfl, rfl, rfl⟩

variable (t contact) in
/-- Inserting leaves the name of the local node and the size of the buckets. -/
theorem insertInner_same (bypassRateLimit admitted : Bool) :
    (t.insertInner parseIp contact bypassRateLimit admitted).localId = t.localId ∧
      (t.insertInner parseIp contact bypassRateLimit admitted).k = t.k := by
  by_cases hne : contact.nodeId = t.localId
  · rw [insertInner, if_pos hne]
    exact ⟨rfl, rfl⟩
  · obtain ⟨bucket, moved, t', -, heq, -, -, -, hlocal, hk⟩ :=
      insertInner_spec parseIp t hne bypassRateLimit admitted
    exact heq ▸ ⟨hlocal, hk⟩

theorem localId_step (t : RoutingTable) (op : Op) : (t.step parseIp op).localId = t.localId := by
  cases op with
  | insert contact admitted => exact (insertInner_same t contact false admitted).1
  | insertTrusted contact => exact (insertInner_same t contact true true).1
  | remove nodeId =>
    rw [step, remove]
    split <;> rfl
  | setK | setSketchThreshold => rfl
  | restore contacts =>
    exact Run.invariant (P := fun t' => t'.localId = t.localId)
      (fun t' c h => (insertInner_same t' c.1 false c.2).1.trans h) rfl contacts

variable (parseIp) in
theorem localId_run (localId : NodeId) (k : ℕ) (ops : List Op) :
    (ops.foldl (RoutingTable.step parseIp) (withK localId k)).localId = localId :=
  Run.invariant (P := fun t => t.localId = localId) (fun t op h => (localId_step t op).trans h)
    rfl ops

theorem Good.insertInner (h : t.Good) (contact : Contact) (bypassRateLimit admitted : Bool) :
    (t.insertInner parseIp contact bypassRateLimit admitted).Good := by
  rw [RoutingTable.insertInner]
  split
  · exact h
  next hne =>
    obtain ⟨⟨caps, hcaps⟩, hid, -⟩ := applyStatedCaps_eq t contact
    have hgood : (t.applyStatedCaps contact).1.Good := by
      rw [hcaps]
      exact ⟨h.placed, h.nodup, h.length_le⟩
    refine hgood.place ?_ bypassRateLimit admitted
    rwa [hid, hcaps]

theorem Good.restore (h : t.Good) (contacts : List (Contact × Bool)) :
    (t.restore parseIp contacts).Good :=
  Run.invariant (fun _ c hgood => hgood.insertInner c.1 false c.2) h contacts

theorem Good.remove (h : t.Good) (nodeId : NodeId) : (t.remove nodeId).Good := by
  rw [RoutingTable.remove]
  split
  · obtain ⟨hplaced, hnodup, hlen⟩ := h.of_sublist (eraseP_sublist
      (l := t.buckets (t.bucketOf nodeId)) (p := fun c => c.nodeId = nodeId))
    exact (h.setBucket hplaced hnodup hlen).bump
  · exact h

theorem Good.step (h : t.Good) (op : Op) : (t.step parseIp op).Good := by
  cases op with
  | insert contact => exact h.insertInner contact false ..
  | insertTrusted contact => exact h.insertInner contact true true
  | remove => exact h.remove ..
  | setK => exact h.setK ..
  | setSketchThreshold threshold => exact ⟨h.placed, h.nodup, h.length_le⟩
  | restore => exact h.restore ..

variable (parseIp) in
/-- **Every run keeps a k-bucket table.** -/
theorem good_run (localId : NodeId) (k : ℕ) (ops : List Op) :
    (ops.foldl (RoutingTable.step parseIp) (withK localId k)).Good :=
  Run.invariant (fun _ op h => h.step op) (.withK localId k) ops

/-- A good table names every node at most once. -/
theorem Good.nodup_allContacts (h : t.Good) : (t.allContacts.map Contact.nodeId).Nodup := by
  rw [allContacts, map_flatMap, nodup_flatMap]
  refine ⟨fun i _ => h.nodup i, (nodup_finRange 256).imp fun {i j} hij => ?_⟩
  intro nodeId hi hj
  obtain ⟨c, hc, rfl⟩ := mem_map.mp hi
  obtain ⟨c', hc', heq⟩ := mem_map.mp hj
  refine hij ?_
  rw [← (h.placed i c hc).2, ← (h.placed j c' hc').2, heq]

/-- **The contact of a node** is the one in its bucket. -/
theorem Good.contact_eq_some_iff (h : t.Good) {nodeId : NodeId} {c : Contact} :
    t.contact nodeId = some c ↔ c ∈ t.buckets (t.bucketOf nodeId) ∧ c.nodeId = nodeId := by
  have hfound : ∀ c, t.contact nodeId = some c → c ∈ t.allContacts ∧ c.nodeId = nodeId :=
    fun c hc => ⟨mem_of_find?_eq_some hc, by simpa using find?_some hc⟩
  constructor
  · intro hc
    obtain ⟨hall, rfl⟩ := hfound c hc
    obtain ⟨i, -, hmem⟩ := mem_flatMap.mp hall
    rw [(h.placed i c hmem).2]
    exact ⟨hmem, rfl⟩
  · rintro ⟨hmem, hid⟩
    have hall : c ∈ t.allContacts := mem_flatMap.mpr ⟨_, mem_finRange _, hmem⟩
    have hsome : (t.contact nodeId).isSome :=
      find?_isSome.mpr ⟨c, hall, by simpa using hid⟩
    obtain ⟨x, hx⟩ := Option.isSome_iff_exists.mp hsome
    obtain ⟨hxall, hxid⟩ := hfound x hx
    rw [hx, inj_on_of_nodup_map h.nodup_allContacts hxall hall (hxid.trans hid.symm)]

end RoutingTable

end VeilNetwork.Dht
