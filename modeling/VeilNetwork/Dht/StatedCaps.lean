import Mathlib.Data.List.Dedup
import VeilNetwork.Dht.Routing

/-!
# What a peer said about itself

A contact whose `caps_known` is set carries a statement of the peer about itself. The table keeps
it in the entry of the contact and, where it is not the default, in a record beside the buckets,
which outlives the entry. Contacts that state nothing carry the defaults, as every constructor of
`Contact` but the stating ones builds them; one that does not is overruled by the record, where
there is one for its node (`Discreet`).

Along every run that leaves room in the record, the record says what each node said last, and so
does the entry of a node: `RoutingTable.stated_caps_kept`.
-/

namespace VeilNetwork.Dht

open List Option Bool AList Function

/-- The preferences of a contact. -/
def Contact.prefs (c : Contact) : UInt8 × Bool := (c.discoveryMode, c.noDhtService)

/-- What a node said last, by the contacts inserted so far. -/
def latest (log : List Contact) (nodeId : NodeId) : UInt8 × Bool :=
  (log.reverse.find? fun c => c.capsKnown && c.nodeId = nodeId).elim (0, false) Contact.prefs

theorem latest_concat (log : List Contact) (c : Contact) (nodeId : NodeId) :
    latest (log ++ [c]) nodeId =
      if c.capsKnown = true ∧ c.nodeId = nodeId then c.prefs else latest log nodeId := by
  rw [latest, reverse_concat, find?_cons, latest]
  split
  next hc => rw [if_pos (by simpa using hc), elim_some]
  next hc => rw [if_neg (by simpa using hc)]

/-- What goes on record: nothing, for the default. -/
def recorded (prefs : UInt8 × Bool) : Option (UInt8 × Bool) :=
  if prefs = (0, false) then none else some prefs

theorem getD_recorded {prefs carried : UInt8 × Bool}
    (h : prefs = (0, false) → carried = (0, false)) : (recorded prefs).getD carried = prefs := by
  rw [recorded]
  split
  next hdefault => exact (h hdefault).trans hdefault.symm
  · rfl

/-- Where nothing is on record for a node, its contacts that state nothing carry the defaults. -/
def Discreet (nodeId : NodeId) (log : List Contact) : Prop :=
  Run.Along (fun before c => before ++ [c])
    (fun before c => c.nodeId = nodeId → c.capsKnown = false →
      latest before nodeId = (0, false) → c.prefs = (0, false)) [] log

instance (nodeId : NodeId) (log : List Contact) : Decidable (Discreet nodeId log) :=
  inferInstanceAs (Decidable (Run.Along _ _ _ _))

theorem discreet_concat {nodeId : NodeId} {log : List Contact} {c : Contact} :
    Discreet nodeId (log ++ [c]) ↔ Discreet nodeId log ∧
      (c.nodeId = nodeId → c.capsKnown = false → latest log nodeId = (0, false) →
        c.prefs = (0, false)) := by
  have hlog : log.foldl (fun before c => before ++ [c]) [] = log := by
    induction log using reverseRecOn with
    | nil => rfl
    | append_singleton log c ih => rw [foldl_concat, ih]
  rw [Discreet, Run.along_append, hlog]
  exact and_congr_right fun _ => and_iff_left trivial

namespace RoutingTable

/-- The contacts a call inserts. -/
def Op.inserted : Op → List Contact
  | .insert contact _ => [contact]
  | .insertTrusted contact => [contact]
  | .restore contacts => contacts.map Prod.fst
  | _ => []

/-- The nodes that ever asked for something. -/
def everAsked (log : List Contact) : List NodeId :=
  ((log.filter fun c => c.capsKnown && c.prefs ≠ (0, false)).map Contact.nodeId).dedup

/-- The nodes other than the local one whose last word is not the default. -/
def asking (localId : NodeId) (log : List Contact) : List NodeId :=
  (everAsked log).filter fun nodeId => nodeId ≠ localId ∧ latest log nodeId ≠ (0, false)

/-- The nodes that ask for something fit into the record. -/
def Fits (log : List Contact) : Prop := (everAsked log).length < statedCapsMax

/-- **The record says what was said last**, and so do the entries. Nothing is recorded of the
local node. -/
structure Told (t : RoutingTable) (log : List Contact) : Prop where
  good : t.Good
  record : ∀ nodeId, t.statedCaps.lookup nodeId =
    if nodeId = t.localId then none else recorded (latest log nodeId)
  entries : ∀ i, ∀ x ∈ t.buckets i, Discreet x.nodeId log → x.prefs = latest log x.nodeId

variable {parseIp : String → Option IpAddr} {t : RoutingTable} {log : List Contact} {c : Contact}

theorem mem_everAsked {nodeId : NodeId} (h : latest log nodeId ≠ (0, false)) :
    nodeId ∈ everAsked log := by
  rw [latest] at h
  cases hfind : log.reverse.find? fun c => c.capsKnown && c.nodeId = nodeId with
  | none => exact absurd (by rw [hfind, elim_none]) h
  | some c =>
    rw [hfind, elim_some] at h
    have hc := find?_some hfind
    rw [and_eq_true, decide_eq_true_eq] at hc
    refine mem_dedup.mpr (mem_map.mpr ⟨c, mem_filter.mpr ⟨?_, ?_⟩, hc.2⟩)
    · exact mem_reverse.mp (mem_of_find?_eq_some hfind)
    · rw [hc.1, Bool.true_and, decide_eq_true h]

theorem Fits.of_append {log' : List Contact} (h : Fits (log ++ log')) : Fits log := by
  refine lt_of_le_of_lt ?_ h
  refine (subperm_of_subset (nodup_dedup _) fun nodeId hmem => ?_).length_le
  rw [everAsked, mem_dedup, filter_append, map_append]
  exact mem_append_left _ (mem_dedup.mp hmem)

/-- The record counts those who ask for something. -/
theorem Told.size_eq (h : Told t log) : t.statedCaps.size = (asking t.localId log).length := by
  rw [Table.size_eq_length_keys]
  refine List.Perm.length_eq ((perm_ext_iff_of_nodup t.statedCaps.keys_nodup
    ((nodup_dedup _).filter _)).mpr fun nodeId => ?_)
  rw [← AList.mem_keys, ← AList.lookup_isSome, h.record, mem_filter, decide_eq_true_eq,
    recorded]
  split
  next hself => exact iff_of_false false_ne_true fun hmem => hmem.2.1 hself
  split
  next hdefault => exact iff_of_false false_ne_true fun hmem => hmem.2.2 hdefault
  next hother hasks => exact iff_of_true rfl ⟨mem_everAsked hasks, hother, hasks⟩

/-- What a peer says goes on record. -/
theorem lookup_applyStatedCaps (hroom : t.statedCaps.size < statedCapsMax) (c : Contact)
    (nodeId : NodeId) : (t.applyStatedCaps c).1.statedCaps.lookup nodeId =
      if c.capsKnown = true ∧ c.nodeId = nodeId then recorded c.prefs
      else t.statedCaps.lookup nodeId := by
  rw [applyStatedCaps]
  by_cases hknown : c.capsKnown = true
  · rw [if_pos hknown]
    rcases eq_or_ne nodeId c.nodeId with rfl | hother
    · rw [if_pos (show c.capsKnown = true ∧ c.nodeId = c.nodeId from ⟨hknown, rfl⟩), recorded,
        Contact.prefs]
      split
      next hdefault => rw [lookup_erase, if_pos (Prod.ext hdefault.1 hdefault.2)]
      next hstated =>
        rw [if_pos (.inr hroom), lookup_insert,
          if_neg fun heq => hstated (Prod.mk.inj heq)]
    · have hnot : ¬(c.capsKnown = true ∧ c.nodeId = nodeId) := fun hc => hother hc.2.symm
      split
      · exact lookup_erase_ne hother
      · rw [if_pos (.inr hroom)]
        exact lookup_insert_ne hother
  · rw [if_neg hknown, if_neg fun hc => hknown hc.1]
    split <;> rfl

variable (t c) in
/-- The record speaks for a peer that does not. -/
theorem prefs_applyStatedCaps :
    (t.applyStatedCaps c).2.prefs =
        (if c.capsKnown then c.prefs else (t.statedCaps.lookup c.nodeId).getD c.prefs) ∧
      ((t.applyStatedCaps c).2.capsKnown = false → c.capsKnown = false) := by
  rw [applyStatedCaps]
  by_cases hknown : c.capsKnown = true
  · rw [if_pos hknown]
    repeat' split
    all_goals exact ⟨rfl, id⟩
  · rw [if_neg hknown, if_neg hknown]
    split
    next hlookup =>
      rw [hlookup]
      exact ⟨rfl, fun _ => eq_false_iff.mpr hknown⟩
    next hlookup =>
      rw [hlookup]
      exact ⟨rfl, id⟩

theorem refreshed_prefs (held next : Contact) : (refreshed held next).prefs =
    if held.capsKnown && !next.capsKnown then held.prefs else next.prefs := by
  rw [refreshed]
  split <;> split <;> rfl

/-- Where the entries of a bucket come from. -/
theorem mem_of_placing {bucket bucket' : List Contact} {cap : ℕ} {moved : Bool} {x : Contact}
    (hnodup : (bucket.map Contact.nodeId).Nodup) (h : Placing parseIp bucket c cap bucket' moved)
    (hx : x ∈ bucket') : (x ∈ bucket ∧ x.nodeId ≠ c.nodeId) ∨
      (∃ held ∈ bucket, held.nodeId = c.nodeId ∧ x = refreshed held c) ∨ x = c := by
  have hother : bucket.find? (fun c' => c'.nodeId = c.nodeId) = none → x ∈ bucket →
      x ∈ bucket ∧ x.nodeId ≠ c.nodeId :=
    fun hfind hx => ⟨hx, by simpa using find?_eq_none.mp hfind x hx⟩
  cases h with
  | refresh hfind =>
    rcases mem_append.mp hx with hx | hx
    · refine .inl ⟨mem_of_mem_eraseP hx, fun heq => ?_⟩
      exact nodeId_notMem_eraseP hnodup c.nodeId (mem_map.mpr ⟨x, hx, heq⟩)
    · refine .inr (.inl ⟨_, mem_of_find?_eq_some hfind, ?_, mem_singleton.mp hx⟩)
      simpa using find?_some hfind
  | refuse hfind => exact .inl (hother hfind hx)
  | enter hfind hnew =>
    obtain ⟨kept, rfl, hsub, -⟩ := admitNew_eq_some hnew
    rcases mem_append.mp hx with hx | hx
    · exact .inl (hother hfind (hsub.subset hx))
    · exact .inr (.inr (mem_singleton.mp hx))

theorem Told.insertInner (h : Told t log) (hfits : Fits (log ++ [c]))
    (bypassRateLimit admitted : Bool) :
    Told (t.insertInner parseIp c bypassRateLimit admitted) (log ++ [c]) := by
  have hlatest : ∀ nodeId, nodeId ≠ c.nodeId → latest (log ++ [c]) nodeId = latest log nodeId :=
    fun nodeId hother => by rw [latest_concat, if_neg fun hc => hother hc.2.symm]
  by_cases hne : c.nodeId = t.localId
  · -- a contact of the local node is not looked at
    have hself : t.insertInner parseIp c bypassRateLimit admitted = t := if_pos hne
    rw [hself]
    refine ⟨h.good, fun nodeId => ?_, fun i x hx => ?_⟩
    · rw [h.record]
      split
      · rfl
      next hother => rw [hlatest nodeId fun heq => hother (heq.trans hne)]
    · intro hdiscreet
      rw [h.entries i x hx (discreet_concat.mp hdiscreet).1,
        hlatest _ fun heq => (h.good.placed i x hx).1 (heq.trans hne)]
  have hroom : t.statedCaps.size < statedCapsMax := by
    rw [h.size_eq]
    exact lt_of_le_of_lt (length_filter_le _ _) hfits.of_append
  have hgood : (t.insertInner parseIp c bypassRateLimit admitted).Good :=
    h.good.insertInner c bypassRateLimit admitted
  obtain ⟨bucket, moved, t', hplacing, heq, hbuckets, -, hcaps, hlocal, -⟩ :=
    insertInner_spec parseIp t hne bypassRateLimit admitted
  obtain ⟨-, hid, -⟩ := applyStatedCaps_eq t c
  have hprefs (hdiscreet : Discreet c.nodeId (log ++ [c])) :
      (t.applyStatedCaps c).2.prefs = latest (log ++ [c]) c.nodeId := by
    rw [(prefs_applyStatedCaps t c).1, latest_concat]
    cases hknown : c.capsKnown with
    | true => rw [if_pos rfl, if_pos ⟨rfl, rfl⟩]
    | false => rw [if_neg Bool.false_ne_true, if_neg (fun hc => Bool.false_ne_true hc.1), h.record,
        if_neg hne, getD_recorded ((discreet_concat.mp hdiscreet).2 rfl hknown)]
  have hsilent := (prefs_applyStatedCaps t c).2
  rw [heq] at hgood ⊢
  refine ⟨hgood, fun nodeId => ?_, fun i x hx hdiscreet => ?_⟩
  · rw [hcaps, lookup_applyStatedCaps hroom, h.record, hlocal, latest_concat]
    by_cases hself : nodeId = t.localId
    · rw [if_pos hself, if_pos hself, if_neg fun hc => hne (hc.2.trans hself)]
    · split <;> rfl
  have hbefore := (discreet_concat.mp hdiscreet).1
  rw [hbuckets, update_apply] at hx
  split at hx
  · rcases mem_of_placing (h.good.nodup _) hplacing hx with
      ⟨hx, hother⟩ | ⟨held, hheld, hsame, rfl⟩ | rfl
    · rw [h.entries _ x hx hbefore, hlatest _ (hid ▸ hother)]
    · rw [refreshed_nodeId, hid] at hdiscreet hbefore
      rw [refreshed_nodeId, hid, refreshed_prefs]
      split
      next hkept =>
        rw [and_eq_true, not_eq_true'] at hkept
        rw [h.entries _ held hheld (by rwa [hsame, hid]), hsame, hid, latest_concat,
          if_neg fun hc => false_ne_true ((hsilent hkept.2).symm.trans hc.1)]
      · exact hprefs hdiscreet
    · rw [hprefs (hid ▸ hdiscreet), hid]
  next hi =>
    rw [h.entries i x hx hbefore,
      hlatest _ fun heq => hi (heq ▸ (h.good.placed i x hx).2.symm)]

/-- Entries that leave change nothing. -/
theorem Told.of_subset {t' : RoutingTable} (h : Told t log) (hgood : t'.Good)
    (hsub : ∀ i, t'.buckets i ⊆ t.buckets i) (hcaps : t'.statedCaps = t.statedCaps)
    (hlocal : t'.localId = t.localId) : Told t' (log ++ []) := by
  rw [append_nil]
  refine ⟨hgood, fun nodeId => ?_, fun i x hx => h.entries i x (hsub i hx)⟩
  rw [hcaps, hlocal, h.record]

theorem Told.step (h : Told t log) {op : Op} (hfits : Fits (log ++ op.inserted)) :
    Told (t.step parseIp op) (log ++ op.inserted) := by
  cases op with
  | insert => exact h.insertInner hfits false ..
  | insertTrusted contact => exact h.insertInner hfits true true
  | restore contacts =>
    rw [RoutingTable.step, restore]
    rw [Op.inserted] at hfits ⊢
    induction contacts using reverseRecOn with
    | nil => exact h.of_subset h.good (fun _ => List.Subset.refl _) rfl rfl
    | append_singleton contacts e ih =>
      rw [map_append, ← append_assoc] at hfits ⊢
      rw [foldl_concat]
      exact (ih hfits.of_append).insertInner hfits false e.2
  | remove nodeId =>
    have hgood := h.good.remove nodeId
    rw [RoutingTable.step]
    rw [remove] at hgood ⊢
    revert hgood
    split
    · refine fun hgood => h.of_subset hgood (fun i x hx => ?_) rfl rfl
      change x ∈ update t.buckets _ _ i at hx
      rw [update_apply] at hx
      split at hx
      next hi => exact hi ▸ mem_of_mem_eraseP hx
      · exact hx
    · exact fun _ => h.of_subset h.good (fun _ => List.Subset.refl _) rfl rfl
  | setK newK =>
    refine h.of_subset (h.good.setK newK) (fun i x hx => ?_) rfl rfl
    rw [RoutingTable.step, setK] at hx
    split at hx
    · exact mem_of_mem_drop hx
    · exact hx
  | setSketchThreshold threshold =>
    exact h.of_subset ⟨h.good.placed, h.good.nodup, h.good.length_le⟩
      (fun _ => List.Subset.refl _) rfl rfl

end RoutingTable

end VeilNetwork.Dht
