import VeilNetwork.Anycast.Record
import VeilNetwork.Lib.Run
import VeilNetwork.Lib.UpdateFirst

/-!
# The shared list of providers

What a node stores when a list of anycast records arrives. The value under a key is one list that
all providers of a service share, so the records that arrive are merged into the list that is held:
first the expired ones go, then every record that arrived takes the place of the one of its node,
or a free place. A record that proves its owner may replace any other of its node, one that does
not may replace only another that does not, and none may replace a later one.

The last rule gives the list away: who publishes an unproved record with a time in the future
keeps the owner's own record out (`owner_kept_out`). Where no such record is held when the owner's
arrives, the owner's place is safe (`providers_kept`).
-/

namespace VeilNetwork.Anycast

open List

/-- What the merge asks of the cryptography. -/
structure Trust where
  dhtKey : FixedBytes 4 → FixedBytes 32
  verifyRecordSignature : AnycastRecord → Bool
  verifyRecordOwnerBinding : AnycastRecord → Bool

/-- What is done with an offered value. -/
inductive AnycastStoreDecision
  | merge (value : List UInt8)
  | drop
  | nonCanonicalKey
  deriving DecidableEq

/-- A list that arrives, with the age of the value held and the time. -/
structure Offer where
  incoming : List UInt8
  blobAge : ℕ
  nowUnix : ℕ

def anycastRecordAgeSecs (r : AnycastRecord) (blobAge nowUnix : ℕ) : ℕ :=
  match r.issuedAt with
  | some issuedAt => nowUnix - issuedAt.toNat
  | none => blobAge

/-- Issued before the record that is held. -/
def isStaleReplay (incoming held : AnycastRecord) : Bool :=
  match incoming.issuedAt, held.issuedAt with
  | some arriving, some present => decide (arriving < present)
  | _, _ => false

/-- A record is not past its time to live. -/
def AnycastRecord.live (r : AnycastRecord) (o : Offer) : Bool :=
  decide (r.ttl = 0 ∨ anycastRecordAgeSecs r o.blobAge o.nowUnix < r.ttl.toNat)

namespace Trust

variable (t : Trust)

/-- A record that arrived against the one held for its node. -/
def replaces (r held : AnycastRecord) : Bool :=
  (t.verifyRecordOwnerBinding r || !t.verifyRecordOwnerBinding held) && !isStaleReplay r held

/-- The turn of one record. -/
def place (list : List AnycastRecord) (r : AnycastRecord) : List AnycastRecord :=
  if list.any fun e => decide (e.nodeId = r.nodeId) then
    Queue.updateFirst (fun e => decide (e.nodeId = r.nodeId))
      (fun e => if t.replaces r e then r else e) list
  else if list.length < maxAnycastCandidates then r :: list
  else list

/-- The records that take part. -/
def admitted (o : Offer) : List AnycastRecord :=
  (AnycastList.decode o.incoming).filter t.verifyRecordSignature

/-- The records that were held and still live. -/
def retained (value : Option (List UInt8)) (o : Offer) : List AnycastRecord :=
  (AnycastList.decode (value.getD [])).filter fun r => r.live o

/-- Merge what is offered into the value at a key. -/
def anycastStoreDecision (key : FixedBytes 32) (value : Option (List UInt8)) (o : Offer) :
    AnycastStoreDecision :=
  let records := AnycastList.decode o.incoming
  if records = [] then .drop
  else if records.any fun r => decide (t.dhtKey r.serviceTag ≠ key) then .nonCanonicalKey
  else if t.admitted o = [] then .drop
  else .merge (AnycastList.encode ((t.admitted o).foldl t.place (retained value o)))

/-- The value after an offer. -/
def step (key : FixedBytes 32) (value : Option (List UInt8)) (o : Offer) : Option (List UInt8) :=
  match t.anycastStoreDecision key value o with
  | .merge merged => some merged
  | .drop | .nonCanonicalKey => value

end Trust

/-- The records held. -/
def held (value : Option (List UInt8)) : List AnycastRecord := AnycastList.decode (value.getD [])

/-- The record held for a node. -/
def holder (n : FixedBytes 32) (list : List AnycastRecord) : Option AnycastRecord :=
  list.find? fun e => decide (e.nodeId = n)

variable {t : Trust} {key : FixedBytes 32} {list : List AnycastRecord} {r e : AnycastRecord}
  {n : FixedBytes 32} {value : Option (List UInt8)} {o : Offer} {merged : List UInt8}

theorem of_holder (h : holder n list = some e) : e ∈ list ∧ e.nodeId = n := by
  have heq := find?_some h
  exact ⟨mem_of_find?_eq_some h, of_decide_eq_true heq⟩

/-! ### The turn of one record -/

theorem nodeId_winner (h : e.nodeId = r.nodeId) :
    (if t.replaces r e then r else e).nodeId = r.nodeId := by
  split
  · rfl
  · exact h

/-- **What a turn does**: the record of the node is compared with the one held, or takes a free
place; the records of other nodes stay. -/
theorem holder_place : holder n (t.place list r) =
    if n = r.nodeId then
      match holder n list with
      | some e => some (if t.replaces r e then r else e)
      | none => if list.length < maxAnycastCandidates then some r else none
    else holder n list := by
  rw [Trust.place]
  split
  next hany =>
    split
    next hn =>
      subst hn
      obtain ⟨e, he⟩ : ∃ e, holder r.nodeId list = some e :=
        Option.isSome_iff_exists.mp (find?_isSome.mpr (any_eq_true.mp hany))
      rw [he]
      refine (Queue.find?_updateFirst fun a ha => ?_).trans (congrArg _ he)
      exact decide_eq_true (nodeId_winner (of_decide_eq_true ha))
    next hn =>
      refine Queue.find?_updateFirst_of_not fun a ha => ?_
      have ha := of_decide_eq_true ha
      have hwinner := nodeId_winner (t := t) ha
      exact ⟨decide_eq_false (ha ▸ Ne.symm hn), decide_eq_false (hwinner ▸ Ne.symm hn)⟩
  next hany =>
    have hnone : holder r.nodeId list = none :=
      find?_eq_none.mpr fun e he h => hany (any_eq_true.mpr ⟨e, he, h⟩)
    split
    next hroom =>
      rw [holder]
      rcases eq_or_ne n r.nodeId with rfl | hn
      · simp [hnone]
      · simp [hn, hn.symm, holder]
    next hroom =>
      rcases eq_or_ne n r.nodeId with rfl | hn
      · simp [hnone]
      · simp [hn]

variable (t list r) in
/-- The nodes of a list stay listed, and no other comes in but the record's. -/
theorem nodeIds_place : (t.place list r).map AnycastRecord.nodeId = list.map AnycastRecord.nodeId ∨
    ((t.place list r).map AnycastRecord.nodeId = r.nodeId :: list.map AnycastRecord.nodeId ∧
      r.nodeId ∉ list.map AnycastRecord.nodeId ∧ list.length < maxAnycastCandidates) := by
  rw [Trust.place]
  split
  · left
    refine Queue.map_updateFirst (fun a ha => ?_) list
    have ha := of_decide_eq_true ha
    exact (nodeId_winner ha).trans ha.symm
  next hany =>
    split
    next hroom =>
      refine .inr ⟨rfl, fun hmem => hany ?_, hroom⟩
      obtain ⟨e, he, heq⟩ := mem_map.mp hmem
      exact any_eq_true.mpr ⟨e, he, decide_eq_true heq⟩
    · exact .inl rfl

theorem mem_place (h : e ∈ t.place list r) : e ∈ list ∨ e = r := by
  rw [Trust.place] at h
  split at h
  · rcases Queue.mem_updateFirst h with h | ⟨a, ha, rfl⟩
    · exact .inl h
    · split
      · exact .inr rfl
      · exact .inl ha
  split at h
  · rcases mem_cons.mp h with rfl | h
    · exact .inr rfl
    · exact .inl h
  · exact .inl h

/-- **An owner-bound record is replaced by an owner-bound one only**, and by none issued earlier. -/
theorem holder_place_of_bound (he : holder n list = some e)
    (hbound : t.verifyRecordOwnerBinding e = true) :
    ∃ e', holder n (t.place list r) = some e' ∧ t.verifyRecordOwnerBinding e' = true ∧
      (e' = e ∨ (e' = r ∧ isStaleReplay r e = false)) := by
  rw [holder_place, he]
  split
  · dsimp only
    split
    next hreplaces =>
      rw [Trust.replaces, hbound, Bool.not_true, Bool.or_false, Bool.and_eq_true,
        Bool.not_eq_true'] at hreplaces
      exact ⟨r, rfl, hreplaces.1, .inr ⟨rfl, hreplaces.2⟩⟩
    · exact ⟨e, rfl, hbound, .inl rfl⟩
  · exact ⟨e, rfl, hbound, .inl rfl⟩

/-! ### Whole merges -/

variable (t key list) in
/-- A list in order. -/
structure Tidy : Prop where
  short : list.length ≤ maxAnycastCandidates
  nodup : (list.map AnycastRecord.nodeId).Nodup
  sound : ∀ r ∈ list, t.verifyRecordSignature r = true ∧ t.dhtKey r.serviceTag = key

theorem Tidy.place (h : Tidy t key list) (hr : t.verifyRecordSignature r = true)
    (hkey : t.dhtKey r.serviceTag = key) : Tidy t key (t.place list r) where
  short := by
    rcases nodeIds_place t list r with heq | ⟨heq, -, hroom⟩
    · have hlength := congrArg length heq
      rw [length_map, length_map] at hlength
      exact hlength.trans_le h.short
    · have hlength := congrArg length heq
      rw [length_map, length_cons, length_map] at hlength
      omega
  nodup := by
    rcases nodeIds_place t list r with heq | ⟨heq, hnew, -⟩
    · exact heq ▸ h.nodup
    · exact heq ▸ nodup_cons.mpr ⟨hnew, h.nodup⟩
  sound := by
    intro x hx
    rcases mem_place hx with hx | rfl
    · exact h.sound x hx
    · exact ⟨hr, hkey⟩

/-- What a merge means: every record that arrived is of the key, and what is stored is the fold of
the turns. -/
theorem of_merge (h : t.anycastStoreDecision key value o = .merge merged) :
    (∀ r ∈ t.admitted o, t.verifyRecordSignature r = true ∧ t.dhtKey r.serviceTag = key) ∧
      held (some merged) = (t.admitted o).foldl t.place (Trust.retained value o) := by
  rw [Trust.anycastStoreDecision] at h
  iterate 2 (split at h; · cases h)
  next hkeys =>
  split at h
  · cases h
  cases h
  constructor
  · intro r hr
    obtain ⟨hmem, hverify⟩ := mem_filter.mp hr
    refine ⟨hverify, ?_⟩
    by_contra hne
    exact hkeys (any_eq_true.mpr ⟨r, hmem, decide_eq_true hne⟩)
  · -- what is stored was decoded before
    refine AnycastList.decode_encode ?_
    refine foldlRecOn (t.admitted o) t.place (motive := fun l => ∀ r ∈ l, AnycastRecord.Wf r) ?_ ?_
    · exact fun r hr => AnycastList.wf_of_mem_decodeFrom (mem_of_mem_filter hr)
    · intro list hlist r hr x hx
      rcases mem_place hx with hx | rfl
      · exact hlist x hx
      · exact AnycastList.wf_of_mem_decodeFrom (mem_of_mem_filter hr)

/-- **A merge keeps a list in order.** -/
theorem Tidy.step (h : Tidy t key (held value)) (o : Offer) :
    Tidy t key (held (t.step key value o)) := by
  rw [Trust.step]
  rcases hdecision : t.anycastStoreDecision key value o with merged | _ | _
  · obtain ⟨hadmitted, hmerged⟩ := of_merge hdecision
    rw [hmerged]
    refine foldlRecOn (t.admitted o) t.place (motive := Tidy t key) ?_ ?_
    · have hsub : (Trust.retained value o).Sublist (held value) := filter_sublist
      exact ⟨hsub.length_le.trans h.short, h.nodup.sublist (hsub.map _),
        fun r hr => h.sound r (hsub.subset hr)⟩
    · intro list hlist r hr
      exact hlist.place (hadmitted r hr).1 (hadmitted r hr).2
  · exact h
  · exact h

variable {rs : List AnycastRecord}

/-- The owner's record stays through a number of turns. -/
theorem bound_foldl (h : ∃ e, holder n list = some e ∧ t.verifyRecordOwnerBinding e = true) :
    ∃ e, holder n (rs.foldl t.place list) = some e ∧ t.verifyRecordOwnerBinding e = true := by
  refine Run.invariant (P := fun list =>
    ∃ e, holder n list = some e ∧ t.verifyRecordOwnerBinding e = true) ?_ h rs
  rintro list r ⟨e, he, hbound⟩
  obtain ⟨e', he', hbound', -⟩ := holder_place_of_bound (r := r) he hbound
  exact ⟨e', he', hbound'⟩

/-- The record held for a node is retained as long as it lives. -/
theorem holder_retained (he : holder n (held value) = some e) (hlive : e.live o = true) :
    holder n (Trust.retained value o) = some e := by
  obtain ⟨heq, before, after, hsplit, hbefore⟩ := find?_eq_some_iff_append.mp he
  rw [holder, Trust.retained, find?_filter]
  refine find?_eq_some_iff_append.mpr ⟨?_, before, after, hsplit, fun a ha => ?_⟩
  · exact decide_eq_true ⟨hlive, heq⟩
  · have hnot := hbefore a ha
    simp [hnot]

/-- **The owner's record stays as long as it lives.** -/
theorem bound_run {offers : List Offer}
    (halive : Run.Along (t.step key)
      (fun value o => ∀ e ∈ held value, e.nodeId = n → e.live o = true) value offers)
    (h : ∃ e, holder n (held value) = some e ∧ t.verifyRecordOwnerBinding e = true) :
    ∃ e, holder n (held (offers.foldl (t.step key) value)) = some e ∧
      t.verifyRecordOwnerBinding e = true := by
  refine Run.invariant_along (P := fun value => ∃ e, holder n (held value) = some e ∧
    t.verifyRecordOwnerBinding e = true) ?_ h halive
  rintro value o hlive ⟨e, he, hbound⟩
  obtain ⟨hmem, hn⟩ := of_holder he
  rw [Trust.step]
  rcases hdecision : t.anycastStoreDecision key value o with merged | _ | _
  · rw [(of_merge hdecision).2]
    exact bound_foldl ⟨e, holder_retained he (hlive e hmem hn), hbound⟩
  · exact ⟨e, he, hbound⟩
  · exact ⟨e, he, hbound⟩

/-- A node that is listed stays listed. -/
theorem mem_nodeIds_foldl (h : n ∈ list.map AnycastRecord.nodeId) :
    n ∈ (rs.foldl t.place list).map AnycastRecord.nodeId := by
  refine Run.invariant (P := fun list : List AnycastRecord =>
    n ∈ list.map AnycastRecord.nodeId) ?_ h rs
  intro list r hn
  rcases nodeIds_place t list r with heq | ⟨heq, -⟩
  · rwa [heq]
  · rw [heq]
    exact mem_cons_of_mem _ hn

/-- **The shared list.** In every run of merges the list is not too long, has one record for a node,
and its records verify and are of the key; a merge removes no node whose record lives; in each turn
an owner-bound record is replaced only by an owner-bound one not issued earlier; and an owner-bound
record that is offered while its node is listed or there is room, and against no unbound record
with a later time, keeps the node's record owner-bound as long as it lives. -/
theorem providers_kept (t : Trust) (key : FixedBytes 32) (offers : List Offer) :
    let value := offers.foldl (t.step key) none
    Tidy t key (held value) ∧
    ∀ o merged, t.anycastStoreDecision key value o = .merge merged →
      (∀ e ∈ held value, e.live o = true → ∃ e' ∈ held (some merged), e'.nodeId = e.nodeId) ∧
      ∀ before r after, t.admitted o = before ++ r :: after →
        let list := before.foldl t.place (Trust.retained value o)
        (∀ n e, holder n list = some e → t.verifyRecordOwnerBinding e = true →
          ∃ e', holder n (t.place list r) = some e' ∧ t.verifyRecordOwnerBinding e' = true ∧
            (e' = e ∨ (e' = r ∧ isStaleReplay r e = false))) ∧
        (t.verifyRecordOwnerBinding r = true →
          (r.nodeId ∈ list.map AnycastRecord.nodeId ∨ list.length < maxAnycastCandidates) →
          (∀ e ∈ list, e.nodeId = r.nodeId → t.verifyRecordOwnerBinding e = false →
            isStaleReplay r e = false) →
          ∀ later, Run.Along (t.step key)
              (fun value o => ∀ e ∈ held value, e.nodeId = r.nodeId → e.live o = true)
              (some merged) later →
            ∃ e, holder r.nodeId (held (later.foldl (t.step key) (some merged))) = some e ∧
              t.verifyRecordOwnerBinding e = true) := by
  intro value
  have hempty : Tidy t key (held none) :=
    ⟨Nat.zero_le _, nodup_nil, nofun⟩
  have htidy : Tidy t key (held value) :=
    Run.invariant (P := fun value => Tidy t key (held value)) (fun _ o h => h.step o) hempty offers
  refine ⟨htidy, fun o merged hmerge => ?_⟩
  obtain ⟨-, hmerged⟩ := of_merge hmerge
  constructor
  · intro e he hlive
    have hretained : e ∈ Trust.retained value o := mem_filter.mpr ⟨he, hlive⟩
    rw [hmerged]
    exact mem_map.mp (mem_nodeIds_foldl (mem_map_of_mem hretained))
  · intro before r after hsplit list
    refine ⟨fun n e he hbound => holder_place_of_bound he hbound, ?_⟩
    intro hbound hroom hnotlater later halive
    refine bound_run halive ?_
    rw [hmerged, hsplit, foldl_append, foldl_cons]
    refine bound_foldl ?_
    -- the turn of the owner's record
    rcases he : holder r.nodeId list with _ | e
    · refine ⟨r, ?_, hbound⟩
      have hlisted : r.nodeId ∉ list.map AnycastRecord.nodeId := by
        intro hmem
        obtain ⟨e, he', heq⟩ := mem_map.mp hmem
        exact find?_eq_none.mp he e he' (decide_eq_true heq)
      rw [holder_place, if_pos rfl, he]
      exact if_pos (hroom.resolve_left hlisted)
    · obtain ⟨hmem, hn⟩ := of_holder he
      rcases hheld : t.verifyRecordOwnerBinding e with _ | _
      · refine ⟨r, ?_, hbound⟩
        rw [holder_place, if_pos rfl, he]
        dsimp only
        rw [Trust.replaces, hbound, hnotlater e hmem hn hheld]
        rfl
      · obtain ⟨e', he', hbound', -⟩ := holder_place_of_bound (r := r) he hheld
        exact ⟨e', he', hbound'⟩

/-- The nodes of the sample sign with their own name as the key. -/
def sampleTrust : Trust where
  dhtKey := fun _ => FixedBytes.replicate 32 0
  verifyRecordSignature := fun r => r.signature.isSome
  verifyRecordOwnerBinding := fun r =>
    r.signature.any fun sig => decide (sig.ownerPubkey = r.nodeId.1)

/-- An advertisement of node 1, signed with a key and dated. -/
def sampleRecord (ownerPubkey : List UInt8) (issuedAt : UInt64) : AnycastRecord :=
  ⟨FixedBytes.replicate 4 7, FixedBytes.replicate 32 1, 0, 0, some ⟨1, ownerPubkey, 0, [9]⟩,
    some issuedAt⟩

/-- The owner's own record. -/
def ownRecord : AnycastRecord := sampleRecord (List.replicate 32 1) 100

/-- A record that somebody else signed for the node. -/
def foreignRecord (issuedAt : UInt64) : AnycastRecord := sampleRecord [5] issuedAt

def sampleOffer (r : AnycastRecord) : Offer := ⟨r.encode, 0, 1000⟩

def sampleKey : FixedBytes 32 := FixedBytes.replicate 32 0

/-- The owner's record against an earlier one of somebody else, which is then offered again. -/
theorem providers_kept_sample :
    ∃ e, holder (FixedBytes.replicate 32 1) (held ([sampleOffer (foreignRecord 200)].foldl
        (sampleTrust.step sampleKey) (some ownRecord.encode))) = some e ∧
      sampleTrust.verifyRecordOwnerBinding e = true := by
  have hmerge : sampleTrust.anycastStoreDecision sampleKey
      ([sampleOffer (foreignRecord 50)].foldl (sampleTrust.step sampleKey) none)
      (sampleOffer ownRecord) = .merge ownRecord.encode := by decide +kernel
  obtain ⟨-, hall⟩ := providers_kept sampleTrust sampleKey [sampleOffer (foreignRecord 50)]
  obtain ⟨-, hturns⟩ := hall _ _ hmerge
  have hadmitted : sampleTrust.admitted (sampleOffer ownRecord) = [] ++ ownRecord :: [] := by
    decide +kernel
  refine (hturns [] ownRecord [] hadmitted).2 (by decide +kernel) (.inr (by decide +kernel)) ?_
    [sampleOffer (foreignRecord 200)] ⟨?_, trivial⟩
  · decide +kernel
  · decide +kernel

/-- **The owner kept out**: a record that somebody else signed for the node and dated far ahead is
stored first. The owner's own record is then refused, though its node is listed. -/
theorem owner_kept_out :
    let value := [sampleOffer (foreignRecord 18446744073709551615), sampleOffer ownRecord].foldl
      (sampleTrust.step sampleKey) none
    sampleTrust.verifyRecordOwnerBinding ownRecord = true ∧
    sampleTrust.admitted (sampleOffer ownRecord) = [ownRecord] ∧
    held value = [foreignRecord 18446744073709551615] ∧
    sampleTrust.verifyRecordOwnerBinding (foreignRecord 18446744073709551615) = false := by
  decide +kernel

end VeilNetwork.Anycast
