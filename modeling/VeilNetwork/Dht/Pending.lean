import VeilNetwork.Dht.Routing
import VeilNetwork.Lib.Ledger

/-!
# Contacts that wait for a handshake

The pending pool of `kademlia.rs`. A contact that a third party names is kept beside the routing
table until a handshake proves it. The pool has a cap, at which its oldest entry goes, and every
source has a quota; the all-zero source, of the node's own feeds, has none.

The main result, `KademliaService.pending_quotas_exact`, is that the four structures of the pool
agree in every run.
-/

namespace VeilNetwork.Dht

open Table AList List Ledger

/-- `PENDING_CONTACTS_CAP`. -/
def pendingContactsCap : ℕ := 1024

/-- `MAX_PENDING_PER_SOURCE`. -/
def maxPendingPerSource : ℕ := 16

/-- The source of the node's own feeds. -/
def trustedSource : NodeId := .replicate 32 0

/-- `RoutingTable::contains`. -/
def RoutingTable.contains (t : RoutingTable) (nodeId : NodeId) : Bool :=
  t.allContacts.any fun c => c.nodeId = nodeId

/-- The routing table of a node and its pending pool. -/
structure KademliaService where
  routing : RoutingTable
  pendingContacts : Table NodeId Contact
  pendingOrder : List NodeId
  pendingSourceOf : Table NodeId NodeId
  pendingPerSource : Ledger NodeId

namespace KademliaService

def new (routing : RoutingTable) : KademliaService := ⟨routing, ∅, [], ∅, ∅⟩

/-- Take an entry out of the pool and give its source the slot back. -/
def drop (k : KademliaService) (nodeId : NodeId) : KademliaService :=
  { k with
    pendingContacts := k.pendingContacts.erase nodeId
    pendingOrder := k.pendingOrder.erase nodeId
    pendingSourceOf := k.pendingSourceOf.erase nodeId
    pendingPerSource :=
      match k.pendingSourceOf.lookup nodeId with
      | some source =>
        if source = trustedSource then k.pendingPerSource else k.pendingPerSource.refund source 1
      | none => k.pendingPerSource }

/-- Put a new entry into the pool. -/
def enter (k : KademliaService) (source : NodeId) (contact : Contact) : KademliaService :=
  { k with
    pendingContacts := k.pendingContacts.insert contact.nodeId contact
    pendingOrder := k.pendingOrder ++ [contact.nodeId]
    pendingSourceOf := k.pendingSourceOf.insert contact.nodeId source
    pendingPerSource :=
      if source = trustedSource then k.pendingPerSource else k.pendingPerSource.charge source 1 }

/-- The oldest entry goes when there are too many. -/
def evictOldest (k : KademliaService) : KademliaService :=
  if pendingContactsCap < k.pendingContacts.size then
    match k.pendingOrder with
    | oldest :: _ => k.drop oldest
    | [] => k
  else k

/-- Let a contact that a peer named wait. -/
def addContactUnverifiedFrom (k : KademliaService) (source : NodeId) (contact : Contact) :
    KademliaService :=
  let alreadyPresent := (k.pendingContacts.lookup contact.nodeId).isSome
  if k.routing.contains contact.nodeId then k
  else if source ≠ trustedSource ∧ ¬alreadyPresent ∧
      maxPendingPerSource ≤ k.pendingPerSource.balance source then k
  else if alreadyPresent then
    { k with pendingContacts := k.pendingContacts.insert contact.nodeId contact }
  else (k.enter source contact).evictOldest

def addContactUnverified (k : KademliaService) (contact : Contact) : KademliaService :=
  k.addContactUnverifiedFrom trustedSource contact

variable (parseIp : String → Option IpAddr)

/-- The flag says whether a contact was promoted. -/
def promoteContactIfPending (k : KademliaService) (nodeId : NodeId) : KademliaService × Bool :=
  match k.pendingContacts.lookup nodeId with
  | some contact =>
    let k := k.drop nodeId
    (if k.routing.contains nodeId then k
      else { k with routing := k.routing.insertTrusted parseIp contact }, true)
  | none => (k, false)

/-- The calls. -/
inductive Op where
  | addContactUnverified (contact : Contact)
  | addContactUnverifiedFrom (source : NodeId) (contact : Contact)
  | promoteContactIfPending (nodeId : NodeId)
  | addContact (contact : Contact) (admitted : Bool)
  | addContactTrusted (contact : Contact)
  | removeContact (nodeId : NodeId)

/-- One call. -/
def step (k : KademliaService) : Op → KademliaService
  | .addContactUnverified contact => k.addContactUnverified contact
  | .addContactUnverifiedFrom source contact => k.addContactUnverifiedFrom source contact
  | .promoteContactIfPending nodeId => (k.promoteContactIfPending parseIp nodeId).1
  | .addContact contact admitted =>
    { k with routing := k.routing.insert parseIp contact admitted }
  | .addContactTrusted contact => { k with routing := k.routing.insertTrusted parseIp contact }
  | .removeContact nodeId => { k with routing := k.routing.remove nodeId }

/-- The source a call offers a contact for. -/
def Op.source : Op → Option NodeId
  | .addContactUnverified _ => some trustedSource
  | .addContactUnverifiedFrom source _ => some source
  | _ => none

/-! ### The books of the pool -/

/-- The number of pending entries of a source. -/
def offeredBy (k : KademliaService) (source : NodeId) : ℕ :=
  k.pendingSourceOf.sum fun _ s => if s = source then 1 else 0

/-- A source that an entry has was the one that offered it while it was not pending. -/
def Attributes (k k' : KademliaService) (source : Option NodeId) : Prop :=
  ∀ n s, k'.pendingSourceOf.lookup n = some s → k.pendingSourceOf.lookup n = some s ∨
    k.pendingContacts.lookup n = none ∧ source = some s

/-- **The pool is in order**, with at most `cap` entries. -/
structure Pooled (cap : ℕ) (k : KademliaService) : Prop where
  contacts : k.pendingOrder.Perm k.pendingContacts.keys
  sources : k.pendingOrder.Perm k.pendingSourceOf.keys
  length_le : k.pendingOrder.length ≤ cap
  count : ∀ s ≠ trustedSource, k.pendingPerSource.balance s = k.offeredBy s
  rows : k.pendingPerSource.All fun _ count => count ≠ 0
  share : ∀ s, k.pendingPerSource.balance s ≤ maxPendingPerSource

variable {k : KademliaService} {cap : ℕ} {n source : NodeId} {contact : Contact}

namespace Pooled

theorem new (routing : RoutingTable) : Pooled cap (new routing) :=
  ⟨.nil, .nil, Nat.zero_le _, fun _ _ => rfl, Table.All.empty, fun _ => Nat.zero_le _⟩

theorem isSome_iff (h : Pooled cap k) :
    (k.pendingSourceOf.lookup n).isSome ↔ (k.pendingContacts.lookup n).isSome := by
  rw [lookup_isSome, lookup_isSome]
  exact h.sources.symm.mem_iff.trans h.contacts.mem_iff

/-- A contact is offered for the first time, by a source that has room. -/
theorem enter (h : Pooled cap k) (hn : k.pendingContacts.lookup contact.nodeId = none)
    (hroom : source ≠ trustedSource → k.pendingPerSource.balance source < maxPendingPerSource) :
    Pooled (cap + 1) (k.enter source contact) := by
  have hnone : k.pendingSourceOf.lookup contact.nodeId = none := by
    rw [← Option.not_isSome_iff_eq_none, h.isSome_iff, hn]
    exact Bool.false_ne_true
  have hperm {α : Type} {t : Table NodeId α} (ht : t.lookup contact.nodeId = none) (a : α)
      (hkeys : k.pendingOrder.Perm t.keys) :
      (k.pendingOrder ++ [contact.nodeId]).Perm (t.insert contact.nodeId a).keys := by
    rw [keys_insert, erase_of_not_mem (lookup_eq_none.mp ht)]
    exact (perm_append_singleton _ _).trans (hkeys.cons _)
  have hledger : (k.enter source contact).pendingPerSource = if source = trustedSource then
      k.pendingPerSource else k.pendingPerSource.charge source 1 := rfl
  have hcount (s : NodeId) : (k.enter source contact).offeredBy s =
      (if source = s then 1 else 0) + k.offeredBy s :=
    sum_insert_of_lookup_eq_none _ hnone source
  refine ⟨hperm hn contact h.contacts, hperm hnone source h.sources, ?_, fun s hs => ?_, ?_, ?_⟩
  · rw [KademliaService.enter, length_append]
    exact Nat.succ_le_succ h.length_le
  · rw [hcount, ← h.count s hs, hledger]
    rcases eq_or_ne s source with rfl | hne
    · rw [if_neg hs, balance_charge, if_pos rfl, if_pos rfl, add_comm]
    · rw [if_neg hne.symm, zero_add]
      split
      · rfl
      · rw [balance_charge, if_neg hne]
  all_goals
    rw [hledger]
    split
  · exact h.rows
  · exact h.rows.insert (Nat.succ_ne_zero _)
  · exact h.share
  next hs => exact charge_le h.share (hroom hs)

/-- An entry that leaves takes its part of the books with it. -/
theorem drop (h : Pooled (cap + 1) k) (hn : n ∈ k.pendingOrder) : Pooled cap (k.drop n) := by
  obtain ⟨source, hsource⟩ := mem_keys_iff.mp (h.sources.mem_iff.mp hn)
  have hledger : (k.drop n).pendingPerSource = if source = trustedSource then k.pendingPerSource
      else k.pendingPerSource.refund source 1 := by rw [KademliaService.drop, hsource]
  have hcount (s : NodeId) : k.offeredBy s =
      (if source = s then 1 else 0) + (k.drop n).offeredBy s :=
    sum_erase_of_lookup_eq_some _ hsource
  refine ⟨?_, ?_, ?_, fun s hs => ?_, ?_, ?_⟩
  · exact (h.contacts.erase n).trans (.of_eq (keys_erase ..).symm)
  · exact (h.sources.erase n).trans (.of_eq (keys_erase ..).symm)
  · rw [KademliaService.drop, length_erase_of_mem hn]
    exact Nat.sub_le_of_le_add h.length_le
  · have hs' := hcount s
    rw [← h.count s hs] at hs'
    rw [hledger]
    rcases eq_or_ne s source with rfl | hne
    · rw [if_pos rfl] at hs'
      rw [if_neg hs, balance_refund, if_pos rfl, hs', Nat.add_sub_cancel_left]
    · rw [if_neg hne.symm, zero_add] at hs'
      rw [← hs']
      split
      · rfl
      · rw [balance_refund, if_neg hne]
  all_goals
    rw [hledger]
    split
  · exact h.rows
  · exact rows_refund h.rows
  · exact h.share
  · exact refund_le h.share

theorem lookup_of_evictOldest (hs : k.evictOldest.pendingSourceOf.lookup n = some source) :
    k.pendingSourceOf.lookup n = some source := by
  rw [KademliaService.evictOldest] at hs
  split_ifs at hs
  · split at hs
    · exact (lookup_erase_eq_some hs).2
    · exact hs
  · exact hs

theorem evictOldest (h : Pooled (pendingContactsCap + 1) k) :
    Pooled pendingContactsCap k.evictOldest := by
  rw [KademliaService.evictOldest, size_eq_length_keys, ← h.contacts.length_eq]
  split
  next hmany =>
    split
    next horder => exact h.drop (horder ▸ mem_cons_self)
    next horder =>
      rw [horder] at hmany
      cases hmany
  next hfew => exact { h with length_le := Nat.le_of_not_lt hfew }

theorem step (h : Pooled pendingContactsCap k) (op : Op) :
    Pooled pendingContactsCap (k.step parseIp op) ∧
      Attributes k (k.step parseIp op) op.source := by
  have hoffer (source : NodeId) (contact : Contact) :
      Pooled pendingContactsCap (k.addContactUnverifiedFrom source contact) ∧
        Attributes k (k.addContactUnverifiedFrom source contact) (some source) := by
    rw [addContactUnverifiedFrom]
    split
    · exact ⟨h, fun _ _ => .inl⟩
    split
    · exact ⟨h, fun _ _ => .inl⟩
    next hquota =>
    split
    next hheld =>
      refine ⟨{ h with contacts := h.contacts.trans ?_ }, fun _ _ => .inl⟩
      rw [keys_insert]
      exact perm_cons_erase (lookup_isSome.mp hheld)
    next hnew =>
      have hnone := Option.not_isSome_iff_eq_none.mp hnew
      refine ⟨(h.enter hnone fun hs => ?_).evictOldest, fun n s hs => ?_⟩
      · exact Nat.lt_of_not_le fun hfull => hquota ⟨hs, hnew, hfull⟩
      · rcases lookup_insert_eq_some (lookup_of_evictOldest hs) with ⟨rfl, rfl⟩ | ⟨-, hold⟩
        · exact .inr ⟨hnone, rfl⟩
        · exact .inl hold
  cases op with
  | addContactUnverified => exact hoffer trustedSource ..
  | addContactUnverifiedFrom => exact hoffer ..
  | promoteContactIfPending nodeId =>
    rw [KademliaService.step, promoteContactIfPending]
    split
    next hheld =>
      have hdrop : Pooled pendingContactsCap (k.drop nodeId) := by
        refine .drop { h with length_le := Nat.le_succ_of_le h.length_le } ?_
        exact h.contacts.mem_iff.mpr (mem_keys_iff.mpr ⟨_, hheld⟩)
      dsimp only
      split <;>
      exact ⟨{ hdrop with }, fun _ _ hs => .inl (lookup_erase_eq_some hs).2⟩
    · exact ⟨h, fun _ _ => .inl⟩
  | addContact | addContactTrusted | removeContact => exact ⟨{ h with }, fun _ _ => .inl⟩

end Pooled

/-- **The pool in every run**: its queue lists every entry once, every entry has a source, the one
that offered it first, and every source but the trusted one has a count that is exact and within
its quota. -/
theorem pending_quotas_exact (routing : RoutingTable) (ops : List Op) :
    ∃ k, k = ops.foldl (step parseIp) (new routing) ∧
      k.pendingOrder.Nodup ∧ (∀ n, n ∈ k.pendingOrder ↔ (k.pendingContacts.lookup n).isSome) ∧
      (∀ n, (k.pendingSourceOf.lookup n).isSome ↔ (k.pendingContacts.lookup n).isSome) ∧
      (∀ op, Attributes k (k.step parseIp op) op.source) ∧
      (∀ s ≠ trustedSource, k.offeredBy s ≤ maxPendingPerSource ∧
        k.pendingPerSource.lookup s = if k.offeredBy s = 0 then none else some (k.offeredBy s)) ∧
      k.pendingContacts.size ≤ pendingContactsCap := by
  have h := Run.invariant (P := Pooled pendingContactsCap) (fun k op h => (h.step parseIp op).1)
    (.new routing) ops
  refine ⟨_, rfl, h.contacts.nodup_iff.mpr (keys_nodup _), fun n => ?_,
    fun n => h.isSome_iff, fun op => (h.step parseIp op).2,
    fun s hs => ⟨h.count s hs ▸ h.share s, ?_⟩, ?_⟩
  · rw [lookup_isSome]
    exact h.contacts.mem_iff
  · rw [← h.count s hs, balance]
    cases hrow : AList.lookup s _ with
    | none => rfl
    | some count => exact (if_neg (h.rows s count hrow)).symm
  · rw [size_eq_length_keys, ← h.contacts.length_eq]
    exact h.length_le

end KademliaService

end VeilNetwork.Dht
