import VeilNetwork.Lib.Bytes
import VeilNetwork.Lib.KeyIndex
import VeilNetwork.Lib.Run

/-!
# The session registry

`SessionRegistry` of `manager.rs`: the sessions of a node by their identifier, with an index by
the node at the other end, an index by the identity and instance that were verified for it, and
the instances of each identity. A session that is registered takes the place of an older one with
the same key in the indices. The older one stays registered; and when the newer one is removed
first, the older one is registered but not found (`SessionRegistry.older_session_lost`). In every
other order of removals the indices find what is registered (`SessionRegistry.registered_found`).
-/

namespace VeilNetwork

open Option Table AList
open List hiding set

namespace Session

abbrev SessionId : Type := FixedBytes 32
abbrev InstanceId : Type := FixedBytes 16

/-- What the registry reads of a verified identity. -/
structure ValidatedIdentity where
  nodeId : NodeId
  activeInstanceId : InstanceId
deriving DecidableEq

/-- A live session. -/
structure SessionEntry where
  sessionId : SessionId
  remoteNodeId : NodeId
  validatedSovereignIdentity : Option ValidatedIdentity
deriving DecidableEq

/-- Which instances of an identity a message is for. -/
inductive InstanceTag where
  | any
  | specific (instanceId : InstanceId)
  | all

structure Recipient where
  nodeId : NodeId
  instanceTag : InstanceTag

/-- A set of instances is a table without values. -/
structure SessionRegistry where
  sessions : Table SessionId SessionEntry
  byPeer : Table NodeId SessionId
  byIdentityInstance : Table (NodeId × InstanceId) SessionId
  byIdentity : Table NodeId (Table InstanceId Unit)

namespace SessionRegistry

def new : SessionRegistry := ⟨∅, ∅, ∅, ∅⟩

section

variable (rows : Table NodeId (Table InstanceId Unit))

/-- `by_identity.entry(node_id).or_default().insert(instance)`. -/
def addInstance (n : NodeId) (i : InstanceId) : Table NodeId (Table InstanceId Unit) :=
  rows.insert n (((rows.lookup n).getD ∅).insert i ())

/-- Take an instance out of its set; a set that gets empty goes. -/
def dropInstance (n : NodeId) (i : InstanceId) : Table NodeId (Table InstanceId Unit) :=
  match rows.lookup n with
  | none => rows
  | some set =>
    if (set.erase i).keys = [] then rows.erase n else rows.insert n (set.erase i)

end

/-- Enter a session in every index. -/
def insert (r : SessionRegistry) (entry : SessionEntry) : SessionRegistry :=
  let r := { r with byPeer := r.byPeer.insert entry.remoteNodeId entry.sessionId }
  let r :=
    match entry.validatedSovereignIdentity with
    | none => r
    | some v =>
      { r with
        byIdentityInstance :=
          r.byIdentityInstance.insert (v.nodeId, v.activeInstanceId) entry.sessionId
        byIdentity := addInstance r.byIdentity v.nodeId v.activeInstanceId }
  { r with sessions := r.sessions.insert entry.sessionId entry }

variable (r : SessionRegistry)

/-- `remove`. The index entries go only if they still name this session: a newer one with the
same key may have taken them. -/
def remove (id : SessionId) : Option SessionEntry × SessionRegistry :=
  match r.sessions.lookup id with
  | none => (none, r)
  | some entry =>
    let r := { r with sessions := r.sessions.erase id }
    let r :=
      if r.byPeer.lookup entry.remoteNodeId = some entry.sessionId then
        { r with byPeer := r.byPeer.erase entry.remoteNodeId }
      else r
    let r :=
      match entry.validatedSovereignIdentity with
      | none => r
      | some v =>
        if r.byIdentityInstance.lookup (v.nodeId, v.activeInstanceId) = some entry.sessionId then
          { r with
            byIdentityInstance := r.byIdentityInstance.erase (v.nodeId, v.activeInstanceId)
            byIdentity := dropInstance r.byIdentity v.nodeId v.activeInstanceId }
        else r
    (some entry, r)

def getByPeerId (p : NodeId) : Option SessionEntry :=
  (r.byPeer.lookup p).bind r.sessions.lookup

section

variable (n : NodeId)

def getByIdentityInstance (i : InstanceId) : Option SessionEntry :=
  (r.byIdentityInstance.lookup (n, i)).bind r.sessions.lookup

def peerIdForIdentityInstance (i : InstanceId) : Option NodeId :=
  (r.getByIdentityInstance n i).map SessionEntry.remoteNodeId

/-- The instances of an identity. -/
def instances : List InstanceId :=
  ((r.byIdentity.lookup n).getD ∅).keys

def peerIdsForIdentity : List (InstanceId × NodeId) :=
  (r.instances n).filterMap fun i =>
    (r.getByIdentityInstance n i).map fun e => (i, e.remoteNodeId)

def peerIdForIdentity : Option NodeId :=
  (r.instances n).findSome? fun i => r.peerIdForIdentityInstance n i

end

/-- The peers that a message goes to. -/
def resolveRecipient (recipient : Recipient) : List NodeId :=
  match recipient.instanceTag with
  | .any => (r.peerIdForIdentity recipient.nodeId).toList
  | .specific i => (r.peerIdForIdentityInstance recipient.nodeId i).toList
  | .all => (r.peerIdsForIdentity recipient.nodeId).map Prod.snd

/-! ### Registering and removing -/

/-- The calls that change a registry. -/
inductive Call where
  | insert (entry : SessionEntry)
  | remove (id : SessionId)

/-- One call. -/
def step : Call → SessionRegistry
  | .insert entry => r.insert entry
  | .remove id => (r.remove id).2

/-- The keys of a session in the two indices. -/
def peerKey (e : SessionEntry) : Option NodeId := some e.remoteNodeId

def identityKey (e : SessionEntry) : Option (NodeId × InstanceId) :=
  e.validatedSovereignIdentity.map fun v => (v.nodeId, v.activeInstanceId)

/-- A session is registered under an identifier that is not in use, and one that answers for a
key is not removed while another with the key is registered. -/
def Orderly : Call → Prop
  | .insert entry => r.sessions.lookup entry.sessionId = none
  | .remove id => ∀ e, r.sessions.lookup id = some e →
      KeyIndex.Last peerKey r.sessions r.byPeer id e ∧
      KeyIndex.Last identityKey r.sessions r.byIdentityInstance id e

/-- The indices show what is registered. -/
structure Indexed (r : SessionRegistry) : Prop where
  ids : ∀ id e, r.sessions.lookup id = some e → e.sessionId = id
  peers : KeyIndex.Answers peerKey r.sessions r.byPeer
  identities : KeyIndex.Answers identityKey r.sessions r.byIdentityInstance
  rows : ∀ n i, i ∈ r.instances n ↔ (r.byIdentityInstance.lookup (n, i)).isSome
  rows_ne : ∀ n set, r.byIdentity.lookup n = some set → set.keys ≠ []

variable {r : SessionRegistry}

theorem indexed_new : new.Indexed where
  ids _ _ h := absurd h (by simp [new])
  peers := .empty
  identities := .empty
  rows n i := by simp [new, instances]
  rows_ne _ _ h := absurd h (by simp [new])

/-! ### The sets of instances -/

section Rows

variable (rows : Table NodeId (Table InstanceId Unit)) (n m : NodeId) (i j : InstanceId)

theorem mem_addInstance :
    j ∈ (((addInstance rows n i).lookup m).getD ∅).keys ↔
      (m = n ∧ j = i) ∨ j ∈ ((rows.lookup m).getD ∅).keys := by
  rw [addInstance, lookup_insert_eq_ite]
  split
  next hm =>
    rw [hm]
    by_cases hj : j = i
    · simp [hj]
    · simp [hj]
  next hm => simp [hm]

theorem mem_dropInstance :
    j ∈ (((dropInstance rows n i).lookup m).getD ∅).keys ↔
      j ∈ ((rows.lookup m).getD ∅).keys ∧ ¬(m = n ∧ j = i) := by
  have herase (set : Table InstanceId Unit) : j ∈ (set.erase i).keys ↔ j ∈ set.keys ∧ j ≠ i := by
    rw [keys_erase, set.keys_nodup.mem_erase_iff, and_comm]
  rw [dropInstance]
  split
  next hnone =>
    rw [iff_self_and]
    rintro hj ⟨rfl, -⟩
    rw [hnone] at hj
    exact not_mem_nil hj
  next set hset =>
  split
  next hnil =>
    rw [lookup_erase_eq_ite]
    split
    next hm =>
      -- the set held nothing else
      rw [hm, hset]
      refine iff_of_false not_mem_nil fun hj => ?_
      have hmem := (herase set).mpr ⟨hj.1, fun heq => hj.2 ⟨rfl, heq⟩⟩
      rw [hnil] at hmem
      exact not_mem_nil hmem
    next hm => simp [hm]
  · rw [lookup_insert_eq_ite]
    split
    next hm =>
      rw [hm, hset, getD_some, herase]
      simp
    next hm => simp [hm]

end Rows

theorem Indexed.insert (h : r.Indexed) {entry : SessionEntry}
    (hnew : r.sessions.lookup entry.sessionId = none) : (r.insert entry).Indexed := by
  have hids : ∀ id e, (r.sessions.insert entry.sessionId entry).lookup id = some e →
      e.sessionId = id := by
    intro id e he
    rw [lookup_insert_eq_ite] at he
    split at he
    next hid =>
      cases he
      exact hid.symm
    · exact h.ids id e he
  have hpeers := h.peers.note hnew entry
  have hidentities := h.identities.note hnew entry
  rw [SessionRegistry.insert]
  cases hv : entry.validatedSovereignIdentity with
  | none =>
    rw [identityKey, hv] at hidentities
    exact ⟨hids, hpeers, hidentities, h.rows, h.rows_ne⟩
  | some v =>
    rw [identityKey, hv] at hidentities
    refine ⟨hids, hpeers, hidentities, fun n i => ?_, fun n set hset => ?_⟩
    · rw [instances]
      rw [mem_addInstance, lookup_insert_eq_ite]
      split
      next hkey => exact iff_of_true (.inl (Prod.mk.inj hkey)) rfl
      next hkey =>
        rw [← h.rows, or_iff_right fun heq => hkey (Prod.ext heq.1 heq.2)]
        rfl
    · dsimp only [addInstance] at hset
      rw [lookup_insert_eq_ite] at hset
      split at hset
      · cases hset
        exact cons_ne_nil _ _
      · exact h.rows_ne n set hset

variable {e : SessionEntry} {id : SessionId}

/-- What a removal of a registered session leaves. -/
theorem remove_eq (h : r.Indexed) (he : r.sessions.lookup id = some e) :
    (r.remove id).2 =
      { sessions := r.sessions.erase id
        byPeer := KeyIndex.forget r.byPeer (peerKey e) id
        byIdentityInstance := KeyIndex.forget r.byIdentityInstance (identityKey e) id
        byIdentity :=
          match identityKey e with
          | none => r.byIdentity
          | some (n, i) =>
            if r.byIdentityInstance.lookup (n, i) = some id then dropInstance r.byIdentity n i
            else r.byIdentity } := by
  have hid := h.ids id e he
  rw [remove, he]
  dsimp only [peerKey, identityKey, KeyIndex.forget]
  rw [hid]
  cases e.validatedSovereignIdentity with
  | none =>
    dsimp only [map_none]
    split <;> rfl
  | some v =>
    dsimp only [map_some]
    by_cases hpeer : r.byPeer.lookup e.remoteNodeId = some id
    · rw [if_pos hpeer]
      split <;> rfl
    · rw [if_neg hpeer]
      split <;> rfl

theorem dropInstance_ne {rows : Table NodeId (Table InstanceId Unit)}
    (h : ∀ n set, rows.lookup n = some set → set.keys ≠ []) (n : NodeId) (i : InstanceId)
    (m : NodeId) (set : Table InstanceId Unit)
    (hset : (dropInstance rows n i).lookup m = some set) :
    set.keys ≠ [] := by
  rw [dropInstance] at hset
  split at hset
  · exact h m set hset
  · split at hset
    · rw [lookup_erase_eq_ite] at hset
      split at hset
      · cases hset
      · exact h m set hset
    next hne =>
      rw [lookup_insert_eq_ite] at hset
      split at hset
      · cases hset
        exact hne
      · exact h m set hset

theorem Indexed.remove (h : r.Indexed) (horderly : r.Orderly (.remove id)) :
    (r.remove id).2.Indexed := by
  cases he : r.sessions.lookup id with
  | none =>
    rwa [SessionRegistry.remove, he]
  | some e =>
    obtain ⟨hpeer, hidentity⟩ := horderly e he
    rw [remove_eq h he]
    refine ⟨fun id' e' he' => ?_, h.peers.forget he hpeer, h.identities.forget he hidentity,
      fun n i => ?_, ?_⟩
    · rw [lookup_erase_eq_ite] at he'
      split at he'
      · cases he'
      · exact h.ids id' e' he'
    · have hrows := h.rows n i
      rw [instances] at hrows ⊢
      rw [KeyIndex.Answers.lookup_forget]
      cases hkey : identityKey e with
      | none =>
        exact hrows
      | some k =>
        dsimp only
        split
        next hnamed =>
          rw [mem_dropInstance, hrows]
          split
          next heq =>
            obtain ⟨rfl, rfl⟩ := Prod.mk.inj (some.inj heq.1)
            exact iff_of_false (fun hj => hj.2 ⟨rfl, rfl⟩) (by simp)
          next hne =>
            refine and_iff_left_of_imp fun _ heq => hne ?_
            obtain ⟨rfl, rfl⟩ := heq
            exact ⟨rfl, hnamed⟩
        next hnamed =>
          rw [if_neg, hrows]
          rintro ⟨heq, hid⟩
          cases heq
          exact hnamed hid
    · split
      · exact h.rows_ne
      · split
        · exact dropInstance_ne h.rows_ne _ _
        · exact h.rows_ne

theorem Indexed.step (h : r.Indexed) {c : Call} (hc : r.Orderly c) : (r.step c).Indexed := by
  cases c with
  | insert entry => exact h.insert hc
  | remove id => exact h.remove hc

/-! ### What is found -/

def Registered (r : SessionRegistry) (e : SessionEntry) : Prop :=
  r.sessions.lookup e.sessionId = some e

/-- The session is one the recipient stands for. -/
def Serves (recipient : Recipient) (e : SessionEntry) : Prop :=
  match recipient.instanceTag with
  | .specific i => identityKey e = some (recipient.nodeId, i)
  | _ => ∃ i, identityKey e = some (recipient.nodeId, i)

namespace Indexed

variable (h : r.Indexed)

include h

theorem registered (he : r.sessions.lookup id = some e) :
    r.Registered e := by
  rw [Registered, h.ids id e he, he]

theorem getByPeerId_eq_some {p : NodeId} (he : r.getByPeerId p = some e) :
    r.Registered e ∧ e.remoteNodeId = p := by
  obtain ⟨⟨id, hid⟩, hkey⟩ := h.peers.bind_eq_some he
  exact ⟨h.registered hid, some.inj hkey⟩

theorem getByPeerId_isSome (p : NodeId) :
    (r.getByPeerId p).isSome ↔ ∃ e, r.Registered e ∧ e.remoteNodeId = p := by
  refine (h.peers.isSome_bind_iff p).trans ⟨?_, ?_⟩
  · rintro ⟨id, e, he, hkey⟩
    exact ⟨e, h.registered he, some.inj hkey⟩
  · rintro ⟨e, he, hkey⟩
    exact ⟨e.sessionId, e, he, congrArg some hkey⟩

theorem getByIdentityInstance_eq_some {n : NodeId} {i : InstanceId}
    (he : r.getByIdentityInstance n i = some e) :
    r.Registered e ∧ identityKey e = some (n, i) := by
  obtain ⟨⟨id, hid⟩, hkey⟩ := h.identities.bind_eq_some he
  exact ⟨h.registered hid, hkey⟩

theorem getByIdentityInstance_isSome (n : NodeId) (i : InstanceId) :
    (r.getByIdentityInstance n i).isSome ↔ ∃ e, r.Registered e ∧ identityKey e = some (n, i) := by
  refine (h.identities.isSome_bind_iff (n, i)).trans ⟨?_, ?_⟩
  · rintro ⟨id, e, he, hkey⟩
    exact ⟨e, h.registered he, hkey⟩
  · rintro ⟨e, he, hkey⟩
    exact ⟨e.sessionId, e, he, hkey⟩

/-- The instances of an identity are those with a session. -/
theorem mem_instances (n : NodeId) (i : InstanceId) :
    i ∈ r.instances n ↔ ∃ e, r.Registered e ∧ identityKey e = some (n, i) := by
  rw [h.rows, ← h.getByIdentityInstance_isSome, getByIdentityInstance, h.identities.isSome_bind_iff,
    h.identities.isSome_iff]

/-- Each of them is listed, with the peer of its session. -/
theorem map_fst_peerIdsForIdentity (n : NodeId) :
    (r.peerIdsForIdentity n).map Prod.fst = r.instances n := by
  rw [peerIdsForIdentity, map_filterMap]
  refine (filterMap_congr fun i hi => ?_).trans filterMap_some
  have hsome := (h.getByIdentityInstance_isSome n i).mpr ((h.mem_instances n i).mp hi)
  obtain ⟨e, he⟩ := isSome_iff_exists.mp hsome
  rw [he]
  rfl

/-- **Peers that are resolved** have a session the recipient stands for. -/
theorem resolveRecipient_sound {recipient : Recipient} {p : NodeId}
    (hp : p ∈ r.resolveRecipient recipient) :
    ∃ e, r.Registered e ∧ Serves recipient e ∧ e.remoteNodeId = p := by
  obtain ⟨n, tag⟩ := recipient
  have hone {i : InstanceId} (hi : r.peerIdForIdentityInstance n i = some p) :
      ∃ e, r.Registered e ∧ identityKey e = some (n, i) ∧ e.remoteNodeId = p := by
    obtain ⟨e, he, hpeer⟩ := map_eq_some_iff.mp hi
    obtain ⟨hreg, hkey⟩ := h.getByIdentityInstance_eq_some he
    exact ⟨e, hreg, hkey, hpeer⟩
  cases tag with
  | any =>
    obtain ⟨i, -, hi⟩ := exists_of_findSome?_eq_some (mem_toList.mp hp)
    obtain ⟨e, hreg, hkey, hpeer⟩ := hone hi
    exact ⟨e, hreg, ⟨i, hkey⟩, hpeer⟩
  | specific i => exact hone (mem_toList.mp hp)
  | all =>
    obtain ⟨⟨i, p'⟩, hmem, rfl⟩ := mem_map.mp hp
    obtain ⟨i', -, hi'⟩ := mem_filterMap.mp hmem
    obtain ⟨e, he, heq⟩ := map_eq_some_iff.mp hi'
    obtain ⟨hreg, hkey⟩ := h.getByIdentityInstance_eq_some he
    exact ⟨e, hreg, ⟨i', hkey⟩, (Prod.mk.inj heq).2⟩

/-- **Some peer is resolved** where there is such a session. -/
theorem resolveRecipient_ne_nil {recipient : Recipient} (he : r.Registered e)
    (hserves : Serves recipient e) : r.resolveRecipient recipient ≠ [] := by
  obtain ⟨n, tag⟩ := recipient
  have hfound {i : InstanceId} (hkey : identityKey e = some (n, i)) :
      i ∈ r.instances n ∧ ∃ p, r.peerIdForIdentityInstance n i = some p := by
    refine ⟨(h.mem_instances n i).mpr ⟨e, he, hkey⟩, isSome_iff_exists.mp ?_⟩
    rw [peerIdForIdentityInstance, isSome_map]
    exact (h.getByIdentityInstance_isSome n i).mpr ⟨e, he, hkey⟩
  rw [resolveRecipient]
  cases tag with
  | any =>
    obtain ⟨i, hkey⟩ := hserves
    obtain ⟨hi, p, hp⟩ := hfound hkey
    have hsome : (r.peerIdForIdentity n).isSome :=
      findSome?_isSome_iff.mpr ⟨i, hi, by rw [hp]; rfl⟩
    obtain ⟨p', hp'⟩ := isSome_iff_exists.mp hsome
    rw [hp']
    exact cons_ne_nil _ _
  | specific i =>
    obtain ⟨-, p, hp⟩ := hfound hserves
    dsimp only
    rw [hp]
    exact cons_ne_nil _ _
  | all =>
    obtain ⟨i, hkey⟩ := hserves
    intro hnil
    have hnone := map_eq_nil_iff.mp hnil
    have hfst := h.map_fst_peerIdsForIdentity n
    rw [hnone] at hfst
    have hi := (hfound hkey).1
    rw [← hfst] at hi
    exact not_mem_nil hi

end Indexed

/-- **What is registered is found**, if sessions come and go in order: by the node at the other
end and by the identity and instance; what is found is registered under the key; the instances
of an identity are listed once each; no empty set is kept; and a recipient resolves to a peer
exactly if there is a session it stands for. -/
theorem registered_found (calls : List Call) (horderly : Run.Along step Orderly new calls) :
    let r := calls.foldl step new
    (∀ p, (r.getByPeerId p).isSome ↔ ∃ e, r.Registered e ∧ e.remoteNodeId = p) ∧
    (∀ n i, (r.getByIdentityInstance n i).isSome ↔
      ∃ e, r.Registered e ∧ identityKey e = some (n, i)) ∧
    (∀ p e, r.getByPeerId p = some e → r.Registered e ∧ e.remoteNodeId = p) ∧
    (∀ n i e, r.getByIdentityInstance n i = some e →
      r.Registered e ∧ identityKey e = some (n, i)) ∧
    (∀ n, ((r.peerIdsForIdentity n).map Prod.fst).Nodup ∧
      ∀ i, i ∈ (r.peerIdsForIdentity n).map Prod.fst ↔
        ∃ e, r.Registered e ∧ identityKey e = some (n, i)) ∧
    (∀ n set, r.byIdentity.lookup n = some set → set.keys ≠ []) ∧
    ∀ recipient, (r.resolveRecipient recipient ≠ [] ↔
        ∃ e, r.Registered e ∧ Serves recipient e) ∧
      ∀ p ∈ r.resolveRecipient recipient,
        ∃ e, r.Registered e ∧ Serves recipient e ∧ e.remoteNodeId = p := by
  intro r
  have h : r.Indexed := Run.invariant_along (fun _ _ hc h => h.step hc) indexed_new horderly
  refine ⟨h.getByPeerId_isSome, h.getByIdentityInstance_isSome, fun p e => h.getByPeerId_eq_some,
    fun n i e => h.getByIdentityInstance_eq_some, fun n => ?_, h.rows_ne, fun recipient => ?_⟩
  · rw [h.map_fst_peerIdsForIdentity]
    exact ⟨keys_nodup _, h.mem_instances n⟩
  · refine ⟨⟨fun hne => ?_, fun ⟨e, he, hserves⟩ => h.resolveRecipient_ne_nil he hserves⟩,
      fun p => h.resolveRecipient_sound⟩
    obtain ⟨p, hp⟩ := exists_mem_of_ne_nil _ hne
    obtain ⟨e, he, hserves, -⟩ := h.resolveRecipient_sound hp
    exact ⟨e, he, hserves⟩

/-- Two sessions with the same device, one after the other. -/
def sampleSession (id : UInt8) : SessionEntry :=
  ⟨.replicate 32 id, .replicate 32 9, some ⟨.replicate 32 7, .replicate 16 3⟩⟩

/-- A reconnect before the old session was closed, and then its close. -/
theorem registered_found_reconnect :
    ((([.insert (sampleSession 1), .insert (sampleSession 2),
        .remove (.replicate 32 1)] : List Call).foldl step new).getByPeerId
      (.replicate 32 9)).isSome := by
  refine ((registered_found [.insert (sampleSession 1), .insert (sampleSession 2),
    .remove (.replicate 32 1)] ⟨rfl, rfl, ?_, trivial⟩).1 _).mpr ⟨sampleSession 2, rfl, rfl⟩
  intro e he
  obtain rfl : sampleSession 1 = e := some.inj he
  constructor
  · intro k hk hnamed
    cases hk
    cases hnamed
  · intro k hk hnamed
    cases hk
    cases hnamed

/-- **The older session is lost** when the newer one is closed first: it is registered, but
neither by its peer nor by its identity is there a session. -/
theorem older_session_lost :
    let r := ([.insert (sampleSession 1), .insert (sampleSession 2),
      .remove (.replicate 32 2)] : List Call).foldl step new
    r.Registered (sampleSession 1) ∧ r.getByPeerId (.replicate 32 9) = none ∧
      r.getByIdentityInstance (.replicate 32 7) (.replicate 16 3) = none ∧
      r.resolveRecipient ⟨.replicate 32 7, .any⟩ = [] :=
  ⟨rfl, rfl, rfl, rfl⟩

end SessionRegistry

end Session

end VeilNetwork
