import VeilNetwork.Dht.Routing

/-!
# Address diversity

A bucket has a share for every subnet and for every stand-in of an autonomous system, and
`insert_inner` asks whether it is used up before it lets a new contact in. Two paths put an address
into a bucket without asking: a known node that is inserted again under another transport, and an
untrusted contact that takes a place in a sketch bucket, which trusted inserts may have filled.

With them a bucket exceeds its shares (`RoutingTable.bucket_of_one_subnet`); without, the shares
hold along every run (`RoutingTable.diverse_run`).
-/

namespace VeilNetwork.Dht

open List Option Bool

/-- **A bucket within its shares.** -/
structure Diverse (parseIp : String → Option IpAddr) (bucket : List Contact) : Prop where
  subnet_le : ∀ s, subnetCount parseIp bucket s ≤ maxNodesPerSubnetPerBucket
  as16_le : ∀ s, as16Count parseIp bucket s ≤ maxNodesPerAs16PerBucket

/-- The share of an address is used up. -/
def shareFull (parseIp : String → Option IpAddr) (bucket : List Contact) (transport : String) :
    Bool :=
  subnetFull parseIp bucket transport || as16Full parseIp bucket transport

section Shares

variable {parseIp : String → Option IpAddr} {bucket kept : List Contact} {contact : Contact}

theorem Diverse.nil : Diverse parseIp [] := ⟨fun _ => Nat.zero_le _, fun _ => Nat.zero_le _⟩

/-- The shares depend on the transports only. -/
theorem Diverse.of_perm (h : Diverse parseIp bucket)
    (hperm : (kept.map Contact.transport).Perm (bucket.map Contact.transport)) :
    Diverse parseIp kept := by
  have hcount : ∀ p : String → Bool, kept.countP (p ∘ Contact.transport) ≤
      bucket.countP (p ∘ Contact.transport) := by
    intro p
    rw [← countP_map, hperm.countP_eq, countP_map]
  exact ⟨fun s => le_trans (hcount fun x => subnetOf parseIp x = some s) (h.subnet_le s),
    fun s => le_trans (hcount fun x => as16Of parseIp x = some s) (h.as16_le s)⟩

/-- One more contact of a kind that has a share left. -/
theorem countP_concat_le {p : Contact → Bool} {share : ℕ} (hsub : kept.Sublist bucket)
    (hle : bucket.countP p ≤ share) (hfree : p contact = true → bucket.countP p < share) :
    (kept ++ [contact]).countP p ≤ share := by
  have hkept : kept.countP p ≤ bucket.countP p := hsub.countP_le
  rw [countP_append, countP_singleton]
  split
  next hp =>
    have := hfree hp
    omega
  · omega

theorem Diverse.concat (h : Diverse parseIp bucket) (hsub : kept.Sublist bucket)
    (hfree : shareFull parseIp bucket contact.transport = false) :
    Diverse parseIp (kept ++ [contact]) := by
  obtain ⟨hsubnet, has16⟩ := or_eq_false_iff.mp hfree
  constructor
  · refine fun s => countP_concat_le hsub (h.subnet_le s) fun hs => ?_
    rw [subnetFull, of_decide_eq_true hs, any_some, decide_eq_false_iff_not] at hsubnet
    exact Nat.lt_of_not_le hsubnet
  · refine fun s => countP_concat_le hsub (h.as16_le s) fun hs => ?_
    rw [as16Full, of_decide_eq_true hs, any_some, decide_eq_false_iff_not] at has16
    exact Nat.lt_of_not_le has16

/-- A transport without an address has no share. -/
theorem shareFull_of_subnetOf_eq_none (h : subnetOf parseIp contact.transport = none) :
    shareFull parseIp bucket contact.transport = false := by
  have has16 : as16Of parseIp contact.transport = none := by
    rw [subnetOf] at h
    rw [as16Of]
    split at h
    · cases h
    · cases h
    · rfl
  rw [shareFull, subnetFull, h, as16Full, has16]
  rfl

/-- **Outside a sketch, only a contact with a share left is let in.** -/
theorem shareFull_of_admitNew {cap : ℕ} (hcap : 1 < cap)
    (h : (admitNew parseIp bucket cap contact).isSome) :
    shareFull parseIp bucket contact.transport = false := by
  rw [admitNew] at h
  split at h
  · rw [decide_eq_true hcap] at h
    split at h
    · cases h
    next hfree => exact eq_false_iff.mpr hfree
  rw [if_neg (by omega)] at h
  split at h
  next s hs =>
    split at h
    · cases h
    next hsubnet =>
      split at h
      · cases h
      next has16 =>
        rw [shareFull, subnetFull, hs, any_some, decide_eq_false hsubnet]
        exact eq_false_iff.mpr has16
  next hnone => exact shareFull_of_subnetOf_eq_none hnone

end Shares

namespace RoutingTable

/-! ### Runs of inserts -/

/-- A call of `insert` or of `insert_trusted`. -/
structure Insertion where
  contact : Contact
  trusted : Bool
  admitted : Bool

variable (parseIp : String → Option IpAddr) (t : RoutingTable) (call : Insertion)

def Insertion.apply : RoutingTable :=
  if call.trusted then t.insertTrusted parseIp call.contact
  else t.insert parseIp call.contact call.admitted

/-- The call puts an address into a bucket and does not ask for its share. -/
def unasked : Bool :=
  match (t.buckets (t.bucketOf call.contact.nodeId)).find? fun c =>
    c.nodeId = call.contact.nodeId with
  | some held => !call.contact.transport.isEmpty && call.contact.transport != held.transport
  | none => !call.trusted && decide ((t.bucketOf call.contact.nodeId).val < t.sketchThreshold)

/-- The call would have been let in, had it asked. -/
def WithinShare : Prop :=
  t.unasked call → shareFull parseIp (t.buckets (t.bucketOf call.contact.nodeId))
    call.contact.transport = false

instance decidableWithinShare (t : RoutingTable) (call : Insertion) :
    Decidable (t.WithinShare parseIp call) := inferInstanceAs (Decidable (_ → _))

variable {parseIp} {t : RoutingTable} {call : Insertion}

/-- **An insert keeps the shares** where the call would have been let in. -/
theorem diverse_apply (hk : 1 < t.k) (h : ∀ i, Diverse parseIp (t.buckets i))
    (hcall : t.WithinShare parseIp call) (i : Fin 256) :
    Diverse parseIp ((call.apply parseIp t).buckets i) := by
  have happly : call.apply parseIp t =
      t.insertInner parseIp call.contact call.trusted (call.trusted || call.admitted) := by
    rw [Insertion.apply]
    cases call.trusted <;> rfl
  rw [happly]
  by_cases hne : call.contact.nodeId = t.localId
  · rw [insertInner, if_pos hne]
    exact h i
  obtain ⟨bucket, moved, t', hplacing, heq, hbuckets, -⟩ := insertInner_spec parseIp t hne
    call.trusted (call.trusted || call.admitted)
  obtain ⟨-, hid, htransport⟩ := applyStatedCaps_eq t call.contact
  rw [heq, hbuckets, Function.update_apply]
  split
  swap
  · exact h i
  have hold := h (t.bucketOf call.contact.nodeId)
  rw [WithinShare, unasked] at hcall
  cases hplacing with
  | refresh hfind =>
    rename_i held
    rw [hid] at hfind ⊢
    rw [hfind] at hcall
    obtain ⟨before, after, hbucket, herase⟩ := eraseP_eq_of_find hfind
    by_cases hasked : (!call.contact.transport.isEmpty &&
        call.contact.transport != held.transport) = true
    · -- the node has moved
      refine hold.concat eraseP_sublist ?_
      rw [refreshed_transport, htransport, if_neg (by simp_all)]
      exact hcall hasked
    · -- the transports are the same, in another order
      refine hold.of_perm ?_
      have htransports : (refreshed held (t.applyStatedCaps call.contact).2).transport =
          held.transport := by
        rw [refreshed_transport]
        split
        · rfl
        · simp_all
      rw [herase, hbucket, map_append, map_append, map_append, map_singleton,
        htransports, append_assoc]
      exact List.Perm.append_left _ (perm_append_singleton _ _)
  | refuse => exact hold
  | enter hfind hnew =>
    rw [hid] at hfind
    rw [hfind] at hcall
    obtain ⟨kept, rfl, hsub, -⟩ := admitNew_eq_some hnew
    refine hold.concat hsub ?_
    by_cases hasked : (!call.trusted &&
        decide ((t.bucketOf call.contact.nodeId).val < t.sketchThreshold)) = true
    · rw [htransport]
      exact hcall hasked
    · refine shareFull_of_admitNew ?_ (isSome_of_eq_some hnew)
      cases htrusted : call.trusted with
      | true => exact hk
      | false =>
        rw [htrusted, Bool.not_false, Bool.true_and, decide_eq_true_eq] at hasked
        rwa [bucketCap, if_neg hasked]

variable (t call) in
theorem k_apply : (call.apply parseIp t).k = t.k := by
  rw [Insertion.apply]
  split
  · exact (insertInner_same t call.contact true true).2
  · exact (insertInner_same t call.contact false call.admitted).2

/-- **The shares of a bucket**: in a run of inserts, trusted or not, whose every call asks for the
share of its address or would have been let in had it asked, no bucket exceeds a share. -/
theorem diverse_run (parseIp : String → Option IpAddr) (localId : NodeId) (k threshold : ℕ)
    (hk : maxNodesPerAs16PerBucket < k) (calls : List Insertion)
    (hcalls : Run.Along (Insertion.apply parseIp) (WithinShare parseIp)
      ((withK localId k).setSketchThreshold threshold) calls) (i : Fin 256) :
    Diverse parseIp ((calls.foldl (Insertion.apply parseIp)
      ((withK localId k).setSketchThreshold threshold)).buckets i) := by
  refine (Run.invariant_along (P := fun t => maxNodesPerAs16PerBucket < t.k ∧
    ∀ i, Diverse parseIp (t.buckets i)) ?_ ⟨hk, fun _ => Diverse.nil⟩ hcalls).2 i
  rintro t call hcall ⟨hk, hdiverse⟩
  rw [k_apply]
  exact ⟨hk, diverse_apply (lt_of_le_of_lt (by decide) hk) hdiverse hcall⟩

/-- Six nodes far from the local one, under a transport. -/
def sixNodes (transport : String) : List Insertion :=
  (List.range 6).map fun n =>
    ⟨⟨⟨UInt8.ofNat (128 + n) :: List.replicate 31 0, rfl⟩, transport, 0, false, false⟩, false, true⟩

/-- The parse of one address. -/
def parseOne (host : String) : Option IpAddr :=
  if host = "10.0.0.1" then some (.v4 10 0 0 1) else none

/-- **One subnet fills a bucket**: six nodes that were inserted without an address are inserted
again under addresses of one subnet. -/
theorem bucket_of_one_subnet : maxNodesPerSubnetPerBucket <
    subnetCount parseOne (((sixNodes "" ++ sixNodes "tcp://10.0.0.1:9000").foldl
      (Insertion.apply parseOne) (withK (FixedBytes.replicate 32 0) defaultK)).buckets 0)
      (.v4 10 0 0) := by
  decide +kernel

/-- Six nodes of one subnet ask, and five are let in; they may be inserted again. -/
theorem diverse_run_six_nodes : Diverse parseOne
    (((sixNodes "tcp://10.0.0.1:9000" ++ sixNodes "").foldl (Insertion.apply parseOne)
      ((withK (FixedBytes.replicate 32 0) defaultK).setSketchThreshold 0)).buckets 0) :=
  diverse_run parseOne (FixedBytes.replicate 32 0) defaultK 0 (by decide)
    (sixNodes "tcp://10.0.0.1:9000" ++ sixNodes "") (by decide +kernel) 0

end RoutingTable

end VeilNetwork.Dht
