import VeilNetwork.Anonymity.CircuitTable
import VeilNetwork.Lib.Run

/-!
# Runs of the circuit table

Any sequence of installs, removals, sweeps, touches and served marks. In every run the indices
agree and the caps hold, and an install drops a circuit only under pressure, and only one that is
idle or has served and is quiet.

Two things do not hold in every run. Identifiers are chosen by the originators, and an install is
checked against the index of its own direction only, so that one link and identifier may be a key
of both. And an install makes room before its return key is checked, so that it may drop a served
circuit and then be refused. Both are seen in short runs
(`CircuitTable.return_cell_misrouted_and_circuit_dropped`). Where installs have keys of their own
and are not refused after they made room (`CircuitTable.Clear`), both hold:
`CircuitTable.clear_run_keeps_circuits`.
-/

namespace VeilNetwork.Anonymity.CircuitTable

open Option List Table Shrinks

variable {r : Except InstallError ℕ} {prevLink : Link} {inst : CircuitInstall}
  {nextLink : Option Link}

/-- The calls. -/
inductive Op where
  | install (inst : CircuitInstall) (prevLink : Link) (nextLink : Option Link) (now : ℕ)
  | remove (prevLink : Link) (cidIn : CircuitId)
  | gc (now : ℕ)
  | touch (handle now : ℕ)
  | markServed (handle now : ℕ)

/-- One call. -/
def step (t : CircuitTable) : Op → CircuitTable
  | .install inst prevLink nextLink now => (t.install inst prevLink nextLink now).1
  | .remove prevLink cidIn => t.remove prevLink cidIn
  | .gc now => (t.gc now).1
  | .touch handle now => t.modify handle (CircuitState.touch now)
  | .markServed handle now => t.modify handle (CircuitState.markServed now)

open CircuitState (idle servedQuiet fromInstall)

variable {t t' t'' : CircuitTable} {k : Link × CircuitId} {h now : ℕ} {c : CircuitState}

/-! ### Making room -/

variable {p : CircuitState → Bool}

theorem holds_iff : t.holds p k = true ↔
    ∃ h c, t.fwd.lookup k = some h ∧ t.circuits[h]? = some c ∧ p c = true := by
  rw [holds, Option.any_eq_true]
  refine exists_congr fun h => ?_
  rw [Option.any_eq_true]
  exact ⟨fun ⟨hk, c, hc, hp⟩ => ⟨c, hk, hc, hp⟩, fun ⟨c, hk, hc, hp⟩ => ⟨hk, c, hc, hp⟩⟩

theorem Shrinks.lookup_eq_none (hs : Shrinks t t') (hk : t.fwd.lookup k = none) :
    t'.fwd.lookup k = none :=
  eq_none_iff_forall_ne_some.mpr fun h hk' => by simp [hs.lookup_of k h hk'] at hk

theorem Shrinks.holds_of (hs : Shrinks t t') (hp : t'.holds p k = true) : t.holds p k = true := by
  obtain ⟨h, c, hk, hc, hpc⟩ := holds_iff.mp hp
  exact holds_iff.mpr ⟨h, c, hs.lookup_of k h hk, hs.circuits_eq ▸ hc, hpc⟩

theorem Shrinks.dropWhere (t : CircuitTable) (keys : List (Link × CircuitId))
    (p : CircuitState → Bool) : Shrinks t (t.dropWhere keys p) := detachAll t _

variable {keys : List (Link × CircuitId)}

/-- What is dropped met the condition. -/
theorem holds_of_dropped (hk : t.fwd.lookup k = some h)
    (hk' : (t.dropWhere keys p).fwd.lookup k = none) : k ∈ keys ∧ t.holds p k = true := by
  rw [dropWhere] at hk'
  by_cases hmem : k ∈ t.keysWhere keys p
  · exact mem_filter.mp hmem
  · rw [lookup_detachAll_of_notMem t hmem, hk] at hk'
    cases hk'

/-- What does not meet the condition stays. -/
theorem lookup_dropWhere (keys : List (Link × CircuitId))
    (hp : t.holds p k = false) : (t.dropWhere keys p).fwd.lookup k = t.fwd.lookup k := by
  refine lookup_detachAll_of_notMem t fun hmem => ?_
  rw [(mem_filter.mp hmem).2] at hp
  cases hp

section Reclaim

variable {keys : CircuitTable → List (Link × CircuitId)} {count : CircuitTable → ℕ} {cap : ℕ}

theorem Shrinks.reclaim (t : CircuitTable) (now : ℕ) :
    Shrinks t (CircuitTable.reclaim keys count cap t now) := by
  rw [CircuitTable.reclaim]
  split
  · exact dropWhere t _ _
  · exact (dropWhere t _ _).trans (dropWhere _ _ _)

/-- **What is reclaimed was idle, or had served and was quiet.** -/
theorem holds_of_reclaimed (hk : t.fwd.lookup k = some h)
    (hk' : (reclaim keys count cap t now).fwd.lookup k = none) :
    (∃ t₁, k ∈ keys t₁) ∧ (t.holds (idle t.ttlSecs now) k = true ∨
      t.holds (servedQuiet now) k = true) := by
  have hs := Shrinks.dropWhere t (keys t) (idle t.ttlSecs now)
  have hfirst : (t.dropWhere (keys t) (idle t.ttlSecs now)).fwd.lookup k = none →
      k ∈ keys t ∧ t.holds (idle t.ttlSecs now) k = true := holds_of_dropped hk
  rw [reclaim] at hk'
  generalize t.dropWhere (keys t) (idle t.ttlSecs now) = t₁ at hk' hs hfirst
  split at hk'
  · obtain ⟨hmem, hidle⟩ := hfirst hk'
    exact ⟨⟨t, hmem⟩, .inl hidle⟩
  · rcases hk₁ : t₁.fwd.lookup k with _ | h₁
    · obtain ⟨hmem, hidle⟩ := hfirst hk₁
      exact ⟨⟨t, hmem⟩, .inl hidle⟩
    · obtain ⟨hmem, hserved⟩ := holds_of_dropped hk₁ hk'
      exact ⟨⟨t₁, hmem⟩, .inr (hs.holds_of hserved)⟩

/-- **A part that is still full has lost nothing but idle circuits**: it was not over its cap, so
a served one that left would have made room. -/
theorem lookup_reclaim_of_full
    (hmono : ∀ t t', Shrinks t t' → t.Consistent → count t' ≤ count t)
    (hlt : ∀ t t' k h, Shrinks t t' → t.Consistent → (∃ t₁, k ∈ keys t₁) →
      t.fwd.lookup k = some h → t'.fwd.lookup k = none → count t' < count t)
    (hcons : t.Consistent) (hcap : count t ≤ cap)
    (hfull : cap ≤ count (reclaim keys count cap t now)) (hk : t.fwd.lookup k = some h)
    (hidle : t.holds (idle t.ttlSecs now) k = false) :
    (reclaim keys count cap t now).fwd.lookup k = some h := by
  have hs := Shrinks.dropWhere t (keys t) (idle t.ttlSecs now)
  have hk₁ := (lookup_dropWhere (keys t) hidle).trans hk
  rw [reclaim] at hfull ⊢
  generalize t.dropWhere (keys t) (idle t.ttlSecs now) = t₁ at hfull hs hk₁ ⊢
  split
  · exact hk₁
  next hfull₁ =>
    rw [if_neg hfull₁] at hfull
    have hs₂ := Shrinks.dropWhere t₁ (keys t₁) (servedQuiet now)
    rcases hk₂ : (t₁.dropWhere (keys t₁) (servedQuiet now)).fwd.lookup k with _ | h₂
    · have hmem := (holds_of_dropped hk₁ hk₂).1
      have hlt₂ := hlt t₁ _ k h hs₂ (hs.consistent hcons) ⟨t₁, hmem⟩ hk₁ hk₂
      have hle := hmono t t₁ hs hcons
      omega
    · rw [← some.inj (hk₁.symm.trans (hs₂.lookup_of k h₂ hk₂))]

end Reclaim

theorem Shrinks.reclaimTable (t : CircuitTable) (now : ℕ) : Shrinks t (t.reclaimTable now) :=
  Shrinks.reclaim t now

theorem Shrinks.reclaimBucket (t : CircuitTable) (link : Link) (now : ℕ) :
    Shrinks t (t.reclaimBucket link now) :=
  reclaim t now

/-- No cap is exceeded. -/
structure Capped (t : CircuitTable) : Prop where
  size_le : t.fwd.size ≤ t.maxTotal
  bucketLen_le : ∀ link, t.bucketLen link ≤ t.maxPerLink

theorem Shrinks.capped (hs : Shrinks t t') (hcons : t.Consistent) (hcap : t.Capped) :
    t'.Capped where
  size_le := by
    rw [hs.maxTotal_eq]
    exact le_trans hs.size_le hcap.size_le
  bucketLen_le link := by
    rw [hs.maxPerLink_eq]
    exact le_trans (hs.bucketLen_le hcons link) (hcap.bucketLen_le link)

theorem fst_of_mem_bucketKeys {link : Link} (hk : k ∈ bucketKeys link t) : k.1 = link := by
  obtain ⟨cid, -, rfl⟩ := mem_map.mp hk
  rfl

section

variable (hcons : t.Consistent) (hcap : t.Capped) (hk : t.fwd.lookup k = some h)
  (hidle : t.holds (idle t.ttlSecs now) k = false)

include hcons hcap hk hidle

theorem lookup_reclaimTable_of_full (hfull : t.maxTotal ≤ (t.reclaimTable now).fwd.size) :
    (t.reclaimTable now).fwd.lookup k = some h := by
  refine lookup_reclaim_of_full (fun t t' hs _ => hs.size_le) ?_ hcons hcap.size_le hfull hk hidle
  intro t t' k h hs _ _ hk hk'
  exact size_lt_of_lookup hs.lookup_of hk hk'

theorem lookup_reclaimBucket_of_full {link : Link}
    (hfull : t.maxPerLink ≤ (t.reclaimBucket link now).bucketLen link) :
    (t.reclaimBucket link now).fwd.lookup k = some h := by
  refine lookup_reclaim_of_full (fun t t' hs hcons => hs.bucketLen_le hcons link) ?_ hcons
    (hcap.bucketLen_le link) hfull hk hidle
  rintro t t' k h hs hcons ⟨t₁, hmem⟩ hk hk'
  rw [← fst_of_mem_bucketKeys hmem]
  exact hs.bucketLen_lt hcons hk hk'

end

/-! ### Installing -/

/-- What an install may do to the table before it adds its own circuit: circuits have left that
were idle or had served and were quiet, each from a full table or a full bucket. -/
structure Evicts (t : CircuitTable) (now : ℕ) (t' : CircuitTable) : Prop where
  shrinks : Shrinks t t'
  holds : ∀ k h, t.fwd.lookup k = some h → t'.fwd.lookup k = none →
    (t.holds (idle t.ttlSecs now) k = true ∨
      t.holds (servedQuiet now) k = true) ∧
    (t.maxTotal ≤ t.fwd.size ∨ t.maxPerLink ≤ t.bucketLen k.1)

theorem Evicts.refl (t : CircuitTable) (now : ℕ) : Evicts t now t where
  shrinks := Shrinks.refl t
  holds k h hk hk' := by
    rw [hk] at hk'
    cases hk'

theorem Evicts.makeRoom (t : CircuitTable) (now : ℕ) : Evicts t now (t.makeRoom now) := by
  rw [CircuitTable.makeRoom]
  split
  next hfull =>
    exact ⟨.reclaimTable t now, fun k h hk hk' =>
      ⟨(holds_of_reclaimed hk hk').2, .inl hfull⟩⟩
  · exact .refl t now

theorem Evicts.makeRoomForLink (hcons : t.Consistent) (hev : Evicts t now t') (link : Link) :
    Evicts t now (t'.makeRoomForLink link now) := by
  rw [CircuitTable.makeRoomForLink]
  split
  next hfull =>
    refine ⟨hev.shrinks.trans (.reclaimBucket t' link now), fun k h hk hk'' => ?_⟩
    rcases hk' : t'.fwd.lookup k with _ | h'
    · exact hev.holds k h hk hk'
    · -- the circuit left the bucket, which was full before too
      obtain ⟨⟨t₁, hmem⟩, hholds⟩ := holds_of_reclaimed hk' hk''
      rw [hev.shrinks.ttlSecs_eq] at hholds
      refine ⟨hholds.imp hev.shrinks.holds_of hev.shrinks.holds_of, .inr ?_⟩
      rw [fst_of_mem_bucketKeys hmem, ← hev.shrinks.maxPerLink_eq]
      exact le_trans hfull (hev.shrinks.bucketLen_le hcons link)
  · exact hev

/-- The table as an install leaves it before it adds its circuit. -/
def cleared (t : CircuitTable) (link : Link) (now : ℕ) : CircuitTable :=
  (t.makeRoom now).makeRoomForLink link now

theorem Evicts.cleared (hcons : t.Consistent) (link : Link) (now : ℕ) :
    Evicts t now (t.cleared link now) :=
  (Evicts.makeRoom t now).makeRoomForLink hcons link

section Install

/-- The ways an install may end. -/
theorem install_cases (hinst : t.install inst prevLink nextLink now = (t', r)) :
    (t' = t ∧ r = .error .duplicate) ∨
    (t' = t.makeRoom now ∧ r = .error .tableFull ∧ t'.maxTotal ≤ t'.fwd.size) ∨
    (t' = t.cleared prevLink now ∧ r = .error .perLinkFull ∧
      t'.maxPerLink ≤ t'.bucketLen prevLink) ∨
    (t' = t.cleared prevLink now ∧ r = .error .duplicate ∧ t'.returnTaken
      (fromInstall inst prevLink nextLink now).returnKey = true) ∨
    (t' = (t.cleared prevLink now).add (fromInstall inst prevLink nextLink now) ∧
      r = .ok (t.cleared prevLink now).circuits.length ∧
      t.fwd.lookup (prevLink, inst.circuitIdIn) = none ∧
      (t.makeRoom now).fwd.size < (t.makeRoom now).maxTotal ∧
      (t.cleared prevLink now).bucketLen prevLink < (t.cleared prevLink now).maxPerLink ∧
      (t.cleared prevLink now).returnTaken
        (fromInstall inst prevLink nextLink now).returnKey = false) := by
  rw [install] at hinst
  dsimp only at hinst
  split at hinst
  · cases hinst
    exact .inl ⟨rfl, rfl⟩
  rename_i hnew
  split at hinst
  next hfull =>
    cases hinst
    exact .inr (.inl ⟨rfl, rfl, hfull⟩)
  rename_i hroom
  split at hinst
  next hfull =>
    cases hinst
    exact .inr (.inr (.inl ⟨rfl, rfl, hfull⟩))
  rename_i hlink
  split at hinst
  next htaken =>
    cases hinst
    exact .inr (.inr (.inr (.inl ⟨rfl, rfl, htaken⟩)))
  next hfree =>
    cases hinst
    exact .inr (.inr (.inr (.inr ⟨rfl, rfl, not_isSome_iff_eq_none.mp hnew,
      Nat.lt_of_not_le hroom, Nat.lt_of_not_le hlink, Bool.eq_false_iff.mpr hfree⟩)))

end Install

/-! ### A new circuit -/

theorem returnTaken_iff {key : Option (Link × CircuitId)} : t.returnTaken key = true ↔
    ∃ k h, key = some k ∧ t.bwd.lookup k = some h := by
  rw [returnTaken, Option.any_eq_true]
  refine exists_congr fun k => ?_
  rw [isSome_iff_exists, exists_and_left]

variable (t k c) in
theorem lookup_add :
    (t.add c).fwd.lookup k =
      if k = c.forwardKey then some t.circuits.length else t.fwd.lookup k :=
  lookup_insert_eq_ite ..

variable (t k c) in
theorem bwd_lookup_add :
    (t.add c).bwd.lookup k =
      if c.returnKey = some k then some t.circuits.length else t.bwd.lookup k := by
  rw [add]
  rcases hret : c.returnKey with _ | key
  · rfl
  · rcases eq_or_ne k key with rfl | hne
    · rw [AList.lookup_insert, if_pos rfl]
    · rw [AList.lookup_insert_ne hne, if_neg fun heq => hne (some.inj heq).symm]

theorem getElem?_circuits_add (hc : t.circuits[h]? = some c) (c' : CircuitState) :
    (t.add c').circuits[h]? = some c := by
  change (t.circuits ++ [c'])[h]? = some c
  rw [List.getElem?_append_left (List.getElem?_eq_some_iff.mp hc).1, hc]

variable (t c) in
theorem getElem?_length_circuits_add :
    (t.add c).circuits[t.circuits.length]? = some c :=
  getElem?_concat_length

theorem Consistent.add (hcons : t.Consistent) (hnew : t.fwd.lookup c.forwardKey = none)
    (hfree : t.returnTaken c.returnKey = false) : (t.add c).Consistent where
  fwd_key k h hk := by
    rw [lookup_add] at hk
    split at hk
    next heq =>
      cases hk
      exact ⟨c, getElem?_length_circuits_add t c, heq.symm⟩
    · obtain ⟨c', hc', hkey⟩ := hcons.fwd_key k h hk
      exact ⟨c', getElem?_circuits_add hc' c, hkey⟩
  bwd_iff k h := by
    rw [bwd_lookup_add]
    constructor
    · intro hk
      split at hk
      next hret =>
        cases hk
        exact ⟨c, getElem?_length_circuits_add t c, by rw [lookup_add, if_pos rfl], hret⟩
      · obtain ⟨c', hc', hfwd, hret⟩ := (hcons.bwd_iff k h).mp hk
        refine ⟨c', getElem?_circuits_add hc' c, ?_, hret⟩
        rw [lookup_add, if_neg ?_, hfwd]
        intro heq
        rw [heq, hnew] at hfwd
        cases hfwd
    · rintro ⟨c', hc', hfwd, hret⟩
      rw [lookup_add] at hfwd
      split at hfwd
      · cases hfwd
        obtain rfl := some.inj ((getElem?_length_circuits_add t c).symm.trans hc')
        exact if_pos hret
      · obtain ⟨c'', hc'', -⟩ := hcons.fwd_key _ h hfwd
        obtain rfl := some.inj ((getElem?_circuits_add hc'' c).symm.trans hc')
        have hold := (hcons.bwd_iff k h).mpr ⟨c'', hc'', hfwd, hret⟩
        rw [if_neg ?_, hold]
        intro heq
        rw [returnTaken, heq, any_some, hold] at hfree
        cases hfree
  index := by
    refine hcons.index.push (g := c.prevLink) (k := c.circuitIdIn) ?_ fun link cid => ?_
    · intro hsome
      rw [show (c.prevLink, c.circuitIdIn) = c.forwardKey from rfl, hnew] at hsome
      cases hsome
    · rw [lookup_add]
      by_cases hkey : (link, cid) = c.forwardKey
      · rw [if_pos hkey]
        exact iff_of_true rfl (.inr (Prod.mk.inj hkey))
      · rw [if_neg hkey, or_iff_left fun heq => hkey (Prod.ext heq.1 heq.2)]

theorem Capped.add (hcap : t.Capped) (hnew : t.fwd.lookup c.forwardKey = none)
    (hsize : t.fwd.size < t.maxTotal) (hlink : t.bucketLen c.prevLink < t.maxPerLink) :
    (t.add c).Capped where
  size_le := by
    change size (t.fwd.insert c.forwardKey t.circuits.length) ≤ t.maxTotal
    rwa [size_insert_of_lookup_eq_none hnew]
  bucketLen_le link := by
    change ((t.perLink.push c.prevLink c.circuitIdIn).bucket link).length ≤ t.maxPerLink
    rcases eq_or_ne link c.prevLink with rfl | hne
    · rwa [Buckets.bucket_push_self, length_append]
    · rw [Buckets.bucket_push_of_ne hne]
      exact hcap.bucketLen_le link

/-! ### Touched circuits -/

theorem Consistent.modify (hcons : t.Consistent) (h₀ : ℕ) {f : CircuitState → CircuitState}
    (hfwd : ∀ c, (f c).forwardKey = c.forwardKey) (hret : ∀ c, (f c).returnKey = c.returnKey) :
    (t.modify h₀ f).Consistent := by
  have hget : ∀ h : ℕ, ∃ g : CircuitState → CircuitState,
      (t.modify h₀ f).circuits[h]? = t.circuits[h]?.map g ∧
      ∀ c, (g c).forwardKey = c.forwardKey ∧ (g c).returnKey = c.returnKey := by
    intro h
    refine ⟨fun c => if h₀ = h then f c else c, getElem?_modify .., fun c => ?_⟩
    split
    · exact ⟨hfwd c, hret c⟩
    · exact ⟨rfl, rfl⟩
  refine ⟨fun k h hk => ?_, fun k h => ?_, hcons.index⟩
  · obtain ⟨g, hg, hkeys⟩ := hget h
    obtain ⟨c, hc, rfl⟩ := hcons.fwd_key k h hk
    exact ⟨g c, by rw [hg, hc, map_some], (hkeys c).1⟩
  · obtain ⟨g, hg, hkeys⟩ := hget h
    refine (hcons.bwd_iff k h).trans ⟨?_, ?_⟩
    · rintro ⟨c, hc, hk, hkey⟩
      refine ⟨g c, by rw [hg, hc, map_some], ?_⟩
      rw [(hkeys c).1, (hkeys c).2]
      exact ⟨hk, hkey⟩
    · rintro ⟨c', hc', hk, hkey⟩
      rw [hg] at hc'
      obtain ⟨c, hc, rfl⟩ := map_eq_some_iff.mp hc'
      rw [(hkeys c).1] at hk
      rw [(hkeys c).2] at hkey
      exact ⟨c, hc, hk, hkey⟩

/-! ### What every run keeps -/

/-- What holds in every state of every run. -/
structure Good (t : CircuitTable) : Prop where
  consistent : t.Consistent
  capped : t.Capped

theorem Shrinks.good (hs : Shrinks t t') (hgood : t.Good) : t'.Good :=
  ⟨hs.consistent hgood.consistent, hs.capped hgood.consistent hgood.capped⟩

theorem Good.withParams (maxTotal maxPerLink ttlSecs : ℕ) :
    Good (withParams maxTotal maxPerLink ttlSecs) where
  consistent := Consistent.withParams maxTotal maxPerLink ttlSecs
  capped := ⟨Nat.zero_le _, fun _ => Nat.zero_le _⟩

section Install

/-- **An install evicts, and then adds its circuit if nothing is in the way.** -/
theorem Good.install_cases (hgood : t.Good)
    (hinst : t.install inst prevLink nextLink now = (t', r)) :
    ∃ t₁, Evicts t now t₁ ∧ (t' = t₁ ∨
      t' = t₁.add (fromInstall inst prevLink nextLink now) ∧
        t.fwd.lookup (prevLink, inst.circuitIdIn) = none ∧ t₁.fwd.size < t₁.maxTotal ∧
        t₁.bucketLen prevLink < t₁.maxPerLink ∧
        t₁.returnTaken (fromInstall inst prevLink nextLink now).returnKey = false) := by
  have hcleared := Evicts.cleared hgood.consistent prevLink now
  rcases CircuitTable.install_cases hinst with ⟨rfl, -⟩ | ⟨rfl, -⟩ | ⟨rfl, -⟩ | ⟨rfl, -⟩ |
    ⟨rfl, -, hnew, hsize, hlink, hfree⟩
  · exact ⟨_, .refl _ now, .inl rfl⟩
  · exact ⟨_, .makeRoom t now, .inl rfl⟩
  · exact ⟨_, hcleared, .inl rfl⟩
  · exact ⟨_, hcleared, .inl rfl⟩
  · -- the second reclaim can only lower what the first left
    have hs : Shrinks (t.makeRoom now) (t.cleared prevLink now) :=
      (Evicts.makeRoomForLink ((Evicts.makeRoom t now).shrinks.consistent hgood.consistent)
        (.refl _ now) prevLink).shrinks
    refine ⟨_, hcleared, .inr ⟨rfl, hnew, ?_, hlink, hfree⟩⟩
    rw [hs.maxTotal_eq]
    exact lt_of_le_of_lt hs.size_le hsize

/-- What an install does to the circuits of others. -/
theorem lookup_install_of_evicts (hgood : t.Good)
    (hinst : t.install inst prevLink nextLink now = (t', r)) (hk : t.fwd.lookup k = some h)
    (hk' : t'.fwd.lookup k ≠ some h) :
    (t.holds (idle t.ttlSecs now) k = true ∨
      t.holds (servedQuiet now) k = true) ∧
    (t.maxTotal ≤ t.fwd.size ∨ t.maxPerLink ≤ t.bucketLen k.1) := by
  obtain ⟨t₁, hev, hcases⟩ := hgood.install_cases hinst
  refine hev.holds k h hk ?_
  rcases hk₁ : t₁.fwd.lookup k with _ | h₁
  · rfl
  · have heq := hk₁.trans ((hev.shrinks.lookup_of k h₁ hk₁).symm.trans hk)
    refine absurd ?_ hk'
    rcases hcases with rfl | ⟨rfl, hnew, -⟩
    · exact heq
    · rw [lookup_add, if_neg ?_, heq]
      rintro rfl
      cases hk.symm.trans hnew

theorem Good.install (hgood : t.Good) :
    (t.install inst prevLink nextLink now).1.Good := by
  rcases hinst : t.install inst prevLink nextLink now with ⟨t', r⟩
  obtain ⟨t₁, hev, rfl | ⟨rfl, hnew, hsize, hlink, hfree⟩⟩ := hgood.install_cases hinst
  · exact hev.shrinks.good hgood
  · have hgood' := hev.shrinks.good hgood
    have hnew' := hev.shrinks.lookup_eq_none hnew
    exact ⟨hgood'.consistent.add hnew' hfree, hgood'.capped.add hnew' hsize hlink⟩

end Install

theorem Good.step (hgood : t.Good) (op : Op) : (t.step op).Good := by
  cases op with
  | install inst prevLink nextLink now => exact hgood.install
  | remove prevLink cidIn => exact (Shrinks.detach t _).good hgood
  | gc now => exact (Shrinks.dropWhere t _ _).good hgood
  | touch handle now | markServed handle now =>
    exact ⟨hgood.consistent.modify handle (fun _ => rfl) fun _ => rfl,
      hgood.capped.size_le, hgood.capped.bucketLen_le⟩

/-- The caps and the lifetime are never changed. -/
structure SameParams (t t' : CircuitTable) : Prop where
  maxTotal_eq : t'.maxTotal = t.maxTotal
  maxPerLink_eq : t'.maxPerLink = t.maxPerLink
  ttlSecs_eq : t'.ttlSecs = t.ttlSecs

theorem Shrinks.sameParams (hs : Shrinks t t') : SameParams t t' :=
  ⟨hs.maxTotal_eq, hs.maxPerLink_eq, hs.ttlSecs_eq⟩

theorem SameParams.trans (h₁ : SameParams t t') (h₂ : SameParams t' t'') : SameParams t t'' :=
  ⟨h₂.1.trans h₁.1, h₂.2.trans h₁.2, h₂.3.trans h₁.3⟩

theorem Good.sameParams_step (hgood : t.Good) (op : Op) : SameParams t (t.step op) := by
  cases op with
  | install inst prevLink nextLink now =>
    rw [CircuitTable.step]
    rcases hinst : t.install inst prevLink nextLink now with ⟨t', r⟩
    obtain ⟨t₁, hev, rfl | ⟨rfl, -⟩⟩ := hgood.install_cases hinst
    · exact hev.shrinks.sameParams
    · exact hev.shrinks.sameParams.trans ⟨rfl, rfl, rfl⟩
  | remove prevLink cidIn => exact (Shrinks.detach t _).sameParams
  | gc now => exact (Shrinks.dropWhere t _ _).sameParams
  | touch | markServed => exact ⟨rfl, rfl, rfl⟩

/-! ### Installs that are clear of the others -/

/-- Some circuit has served and is quiet, but is not idle. -/
def lingering (t : CircuitTable) (now : ℕ) : Bool :=
  t.fwd.keys.any (t.holds fun c => c.servedQuiet now && !c.idle t.ttlSecs now)

/-- **An install clear of the circuits already there**: its keys are not keys of the other
direction, nor are they the same, and it is not refused after room was made at the cost of a
circuit that is not idle (it needs room in the table or in its bucket and not in both, and its
return key is free then). -/
def Clear (t : CircuitTable) : Op → Prop
  | .install inst prevLink nextLink now =>
    let c := fromInstall inst prevLink nextLink now
    t.bwd.lookup c.forwardKey = none ∧
    c.returnKey.all (fun k => (t.fwd.lookup k).isNone && k != c.forwardKey) = true ∧
    (t.lingering now = true →
      (t.fwd.size < t.maxTotal ∨ t.bucketLen prevLink < t.maxPerLink) ∧
      (t.maxTotal ≤ t.fwd.size ∨ t.maxPerLink ≤ t.bucketLen prevLink →
        t.returnTaken c.returnKey = false))
  | _ => True

instance decidableClear (t : CircuitTable) (op : Op) : Decidable (t.Clear op) := by
  cases op <;> unfold Clear <;> infer_instance

/-- No link and identifier are a key of both directions. -/
def Separate (t : CircuitTable) : Prop :=
  ∀ k h h', t.fwd.lookup k = some h → t.bwd.lookup k ≠ some h'

theorem Separate.withParams (maxTotal maxPerLink ttlSecs : ℕ) :
    Separate (withParams maxTotal maxPerLink ttlSecs) := by
  intro k h h' hk
  cases hk

theorem Shrinks.separate (hs : Shrinks t t') (hsep : t.Separate) : t'.Separate :=
  fun k h h' hk hk' => hsep k h h' (hs.lookup_of k h hk) (hs.bwd_of k h' hk')

theorem Separate.add (hsep : t.Separate) (hbwd : t.bwd.lookup c.forwardKey = none)
    (hfwd : ∀ k, c.returnKey = some k → t.fwd.lookup k = none)
    (hne : c.returnKey ≠ some c.forwardKey) : (t.add c).Separate := by
  intro k h h' hk hk'
  rw [lookup_add] at hk
  rw [bwd_lookup_add] at hk'
  split at hk
  next heq =>
    rw [heq, if_neg hne, hbwd] at hk'
    cases hk'
  · split at hk'
    next hret =>
      rw [hfwd k hret] at hk
      cases hk
    · exact hsep k h h' hk hk'

section Install

theorem Separate.install (hsep : t.Separate) (hgood : t.Good)
    (hclear : t.Clear (.install inst prevLink nextLink now)) :
    (t.install inst prevLink nextLink now).1.Separate := by
  obtain ⟨hbwd, hret, -⟩ := hclear
  rcases hinst : t.install inst prevLink nextLink now with ⟨t', r⟩
  obtain ⟨t₁, hev, rfl | ⟨rfl, -⟩⟩ := hgood.install_cases hinst
  · exact hev.shrinks.separate hsep
  · have hs := hev.shrinks
    have hkeys : ∀ k, (fromInstall inst prevLink nextLink now).returnKey = some k →
        t.fwd.lookup k = none ∧
          k ≠ (fromInstall inst prevLink nextLink now).forwardKey := by
      intro k hk
      simpa [hk] using hret
    refine (hs.separate hsep).add ?_ ?_ fun heq => (hkeys _ heq).2 rfl
    · refine eq_none_iff_forall_ne_some.mpr fun h hk => ?_
      rw [hs.bwd_of _ h hk] at hbwd
      cases hbwd
    · exact fun k hk => hs.lookup_eq_none (hkeys k hk).1

/-- Without circuits that linger, only idle ones leave. -/
theorem lookup_install_of_not_lingering (hgood : t.Good) (hling : t.lingering now = false)
    {r : Except InstallError ℕ} (hinst : t.install inst prevLink nextLink now = (t', r))
    (hk : t.fwd.lookup k = some h) (hidle : t.holds (idle t.ttlSecs now) k = false) :
    t'.fwd.lookup k = some h := by
  by_contra hgone
  rcases (lookup_install_of_evicts hgood hinst hk hgone).1 with hholds | hholds
  · rw [hidle] at hholds
    cases hholds
  · obtain ⟨h', c, hk', hc, hserved⟩ := holds_iff.mp hholds
    have hbusy : c.idle t.ttlSecs now = false := by
      by_contra hbusy
      rw [holds_iff.mpr ⟨h', c, hk', hc, eq_true_of_ne_false hbusy⟩] at hidle
      cases hidle
    refine Bool.eq_false_iff.mp hling (any_eq_true.mpr
      ⟨k, mem_keys_iff.mpr ⟨h, hk⟩, holds_iff.mpr ⟨h', c, hk', hc, ?_⟩⟩)
    rw [hserved, hbusy]
    rfl

/-- **A clear install that is refused leaves every circuit that is not idle.** -/
theorem lookup_install_of_clear (hgood : t.Good)
    (hclear : t.Clear (.install inst prevLink nextLink now)) {e : InstallError}
    (hinst : t.install inst prevLink nextLink now = (t', .error e)) (hk : t.fwd.lookup k = some h)
    (hidle : t.holds (idle t.ttlSecs now) k = false) :
    t'.fwd.lookup k = some h := by
  rcases hling : t.lingering now with _ | _
  · exact lookup_install_of_not_lingering hgood hling hinst hk hidle
  obtain ⟨-, -, hroom⟩ := hclear
  obtain ⟨hone, hfree⟩ := hroom hling
  have hs := (Evicts.cleared hgood.consistent prevLink now).shrinks
  rcases install_cases hinst with ⟨rfl, -⟩ | ⟨rfl, -, hfull⟩ | ⟨rfl, -, hfull⟩ |
    ⟨rfl, -, htaken⟩ | ⟨-, hok, -⟩
  · exact hk
  · rw [makeRoom] at hfull ⊢
    split
    next hfull₀ =>
      rw [if_pos hfull₀, (Shrinks.reclaimTable t now).maxTotal_eq] at hfull
      exact lookup_reclaimTable_of_full hgood.consistent hgood.capped hk hidle hfull
    · exact hk
  · -- the bucket is full now, so it was; then the table was not
    have hbucket : t.maxPerLink ≤ t.bucketLen prevLink := by
      rw [← hs.maxPerLink_eq]
      exact le_trans hfull (hs.bucketLen_le hgood.consistent prevLink)
    have htable : ¬t.maxTotal ≤ t.fwd.size :=
      not_le.mpr (hone.resolve_right (not_lt.mpr hbucket))
    rw [cleared, makeRoom, if_neg htable, makeRoomForLink, if_pos hbucket] at hfull ⊢
    rw [(Shrinks.reclaimBucket t prevLink now).maxPerLink_eq] at hfull
    exact lookup_reclaimBucket_of_full hgood.consistent hgood.capped hk hidle hfull
  · -- the key was taken before, so no room was made
    have htaken₀ : t.returnTaken
        (fromInstall inst prevLink nextLink now).returnKey = true := by
      obtain ⟨key, h', hkey, hh'⟩ := returnTaken_iff.mp htaken
      exact returnTaken_iff.mpr ⟨key, h', hkey, hs.bwd_of key h' hh'⟩
    have hspace : ¬(t.maxTotal ≤ t.fwd.size ∨ t.maxPerLink ≤ t.bucketLen prevLink) := by
      intro hfull
      rw [hfree hfull] at htaken₀
      cases htaken₀
    rw [not_or] at hspace
    rwa [cleared, makeRoom, if_neg hspace.1, makeRoomForLink, if_neg hspace.2]
  · cases hok

end Install

theorem Separate.step (hsep : t.Separate) (hgood : t.Good) {op : Op} (hclear : t.Clear op) :
    (t.step op).Separate := by
  cases op with
  | install inst prevLink nextLink now => exact hsep.install hgood hclear
  | remove prevLink cidIn => exact (Shrinks.detach t _).separate hsep
  | gc now => exact (Shrinks.dropWhere t _ _).separate hsep
  | touch | markServed => exact hsep

/-! ### The main result -/

/-- **In a run of clear installs** the indices describe one set of circuits, no key leads to two
of them, the caps hold, an install drops only idle or served and quiet circuits and only under
pressure, and a clear one that is refused drops idle ones only. -/
theorem clear_run_keeps_circuits (maxTotal maxPerLink ttlSecs : ℕ) (ops : List Op)
    (hclear : Run.Along step Clear (withParams maxTotal maxPerLink ttlSecs) ops) :
    ∃ t, t = ops.foldl step (withParams maxTotal maxPerLink ttlSecs) ∧
      t.Consistent ∧ t.Separate ∧
      t.fwd.size ≤ (withParams maxTotal maxPerLink ttlSecs).maxTotal ∧
      (∀ link, t.bucketLen link ≤ (withParams maxTotal maxPerLink ttlSecs).maxPerLink) ∧
      ∀ inst prevLink nextLink now t' r, t.install inst prevLink nextLink now = (t', r) →
        (∀ k h, t.fwd.lookup k = some h → t'.fwd.lookup k ≠ some h →
          (t.holds (CircuitState.idle ttlSecs now) k = true ∨
            t.holds (CircuitState.servedQuiet now) k = true) ∧
          (t.maxTotal ≤ t.fwd.size ∨ t.maxPerLink ≤ t.bucketLen k.1)) ∧
        (t.Clear (.install inst prevLink nextLink now) → ∀ e, r = .error e →
          ∀ k h, t.fwd.lookup k = some h → t.holds (CircuitState.idle ttlSecs now) k = false →
            t'.fwd.lookup k = some h) := by
  refine ⟨_, rfl, ?_⟩
  have hrun := Run.invariant_along (P := fun t => t.Good ∧ t.Separate ∧
    SameParams (withParams maxTotal maxPerLink ttlSecs) t)
    (fun t op hop ⟨hgood, hsep, hparams⟩ => ⟨hgood.step op, hsep.step hgood hop,
      hparams.trans (hgood.sameParams_step op)⟩)
    ⟨.withParams maxTotal maxPerLink ttlSecs, Separate.withParams maxTotal maxPerLink ttlSecs,
      rfl, rfl, rfl⟩
    hclear
  generalize ops.foldl step (withParams maxTotal maxPerLink ttlSecs) = t at hrun
  obtain ⟨hgood, hsep, hparams⟩ := hrun
  refine ⟨hgood.consistent, hsep, hparams.maxTotal_eq ▸ hgood.capped.size_le,
    fun link => hparams.maxPerLink_eq ▸ hgood.capped.bucketLen_le link, ?_⟩
  intro inst prevLink nextLink now t' r hinst
  have httl : t.ttlSecs = ttlSecs := hparams.ttlSecs_eq
  refine ⟨fun k h hk hk' => ?_, ?_⟩
  · have hgone := lookup_install_of_evicts hgood hinst hk hk'
    rwa [httl] at hgone
  · rintro hclear e rfl k h hk hidle
    rw [← httl] at hidle
    exact lookup_install_of_clear hgood hclear hinst hk hidle

/-! ### Two short runs -/

def sampleLink (n : UInt8) : Link := .replicate 32 n

def sampleInstall (cidIn cidOut : CircuitId) : CircuitInstall :=
  ⟨cidIn, cidOut, .replicate 32 0, .legacy⟩

/-- A circuit that goes on, and a served one, in a table with one place for each link. -/
def servedRun : List Op :=
  [.install (sampleInstall 1 0) (sampleLink 1) none 0, .markServed 0 10,
    .install (sampleInstall 2 9) (sampleLink 2) (some (sampleLink 4)) 10]

theorem clear_run_keeps_circuits_sample :
    ∃ t, t = servedRun.foldl step (withParams 10 1 300) ∧ t.Separate ∧
      t.bucketLen (sampleLink 1) ≤ 1 := by
  obtain ⟨t, ht, -, hsep, -, hlink, -⟩ :=
    clear_run_keeps_circuits 10 1 300 servedRun (by decide +kernel)
  exact ⟨t, ht, hsep, hlink (sampleLink 1)⟩

/-- A circuit from link 1 that goes on to link 2, and one that arrives from link 2 under the
identifier of the first one's returning cells. -/
def clashingRun : List Op :=
  [.install (sampleInstall 1 7) (sampleLink 1) (some (sampleLink 2)) 0,
    .install (sampleInstall 7 0) (sampleLink 2) none 0]

/-- **A returning cell is taken for a cell of another circuit**, and **an install that is refused
drops a circuit that is not idle**. -/
theorem return_cell_misrouted_and_circuit_dropped : ∃ clashing served refused,
    clashing = clashingRun.foldl step (withParams 10 10 300) ∧
    clashing.lookupBackward (sampleLink 2) 7 = some 0 ∧
    clashing.route (sampleLink 2) 7 = some (.forward, 1) ∧
    served = servedRun.foldl step (withParams 10 1 300) ∧
    served.lookupForward (sampleLink 1) 1 = some 0 ∧
    served.holds (CircuitState.idle 300 50) (sampleLink 1, 1) = false ∧
    served.install (sampleInstall 3 9) (sampleLink 1) (some (sampleLink 4)) 50 =
      (refused, .error .duplicate) ∧
    refused.lookupForward (sampleLink 1) 1 = none := by
  refine ⟨_, _, _, rfl, by decide +kernel, by decide +kernel, rfl, by decide +kernel,
    by decide +kernel, Prod.ext rfl ?_, by decide +kernel⟩
  decide +kernel

/-! ### Collection -/

theorem lookup_detachAll_of_mem (hk : k ∈ keys) : (t.detachAll keys).fwd.lookup k = none := by
  induction keys generalizing t with
  | nil => cases hk
  | cons k' keys ih =>
    rcases eq_or_ne k k' with rfl | hne
    · refine (Shrinks.detachAll (t.detach k).1 keys).lookup_eq_none ?_
      rcases hold : t.fwd.lookup k with _ | h
      · rwa [detach_of_lookup_eq_none hold]
      · rw [detach_of_lookup hold]
        exact AList.lookup_erase k _
    · exact ih ((mem_cons.mp hk).resolve_left hne)

/-- What is left of the forward index. -/
theorem lookup_gc : (t.gc now).1.fwd.lookup k = some h ↔
    t.fwd.lookup k = some h ∧ t.holds (idle t.ttlSecs now) k = false := by
  constructor
  · intro hk
    have hold := (Shrinks.dropWhere t _ _).lookup_of k h hk
    refine ⟨hold, Bool.eq_false_iff.mpr fun hidle => ?_⟩
    have hmem : k ∈ t.keysWhere t.fwd.keys (idle t.ttlSecs now) :=
      mem_filter.mpr ⟨Table.mem_keys_iff.mpr ⟨h, hold⟩, hidle⟩
    rw [gc, dropWhere, lookup_detachAll_of_mem hmem] at hk
    cases hk
  · rintro ⟨hk, hidle⟩
    exact (lookup_dropWhere _ hidle).trans hk

/-- **Collection takes the idle circuits and no other**, after every run: a key leads where it
led, in either direction, exactly if its circuit was heard of within the lifetime; the number
returned is by how much the table shrank; and nothing is left for a second pass. -/
theorem gc_takes_exactly_idle (maxTotal maxPerLink ttlSecs now : ℕ) (ops : List Op) :
    let t := ops.foldl step (withParams maxTotal maxPerLink ttlSecs)
    (∀ k h, (t.gc now).1.fwd.lookup k = some h ↔ t.fwd.lookup k = some h ∧
      ∃ c, t.circuits[h]? = some c ∧ now - c.lastSeenUnix < t.ttlSecs) ∧
    (∀ k h, (t.gc now).1.bwd.lookup k = some h ↔ t.bwd.lookup k = some h ∧
      ∃ c, t.circuits[h]? = some c ∧ now - c.lastSeenUnix < t.ttlSecs) ∧
    (t.gc now).1.fwd.size + (t.gc now).2 = t.fwd.size ∧ ((t.gc now).1.gc now).2 = 0 := by
  intro t
  have hgood : t.Good := Run.invariant (fun _ op h => h.step op) (Good.withParams ..) ops
  have hs : Shrinks t (t.gc now).1 := Shrinks.dropWhere t _ _
  have hfwd (k : Link × CircuitId) (h : ℕ) : (t.gc now).1.fwd.lookup k = some h ↔
      t.fwd.lookup k = some h ∧ ∃ c, t.circuits[h]? = some c ∧
        now - c.lastSeenUnix < t.ttlSecs := by
    refine lookup_gc.trans (and_congr_right fun hk => ?_)
    obtain ⟨c, hc, -⟩ := hgood.consistent.fwd_key k h hk
    simp [holds, hk, hc, idle]
  have hkeys : (t.gc now).1.fwd.keys ~
      t.fwd.keys.filter fun k => !t.holds (idle t.ttlSecs now) k := by
    refine (perm_ext_iff_of_nodup (t.gc now).1.fwd.keys_nodup (t.fwd.keys_nodup.filter _)).mpr
      fun k => ?_
    simp only [mem_filter, Table.mem_keys_iff, lookup_gc, Bool.not_eq_true', exists_and_right]
  refine ⟨hfwd, fun k h => ?_, ?_, ?_⟩
  · rw [(hs.consistent hgood.consistent).bwd_iff, hgood.consistent.bwd_iff, hs.circuits_eq]
    constructor
    · rintro ⟨c, hc, hk, hret⟩
      obtain ⟨hk, hrecent⟩ := (hfwd _ h).mp hk
      exact ⟨⟨c, hc, hk, hret⟩, hrecent⟩
    · rintro ⟨⟨c, hc, hk, hret⟩, hrecent⟩
      exact ⟨c, hc, (hfwd _ h).mpr ⟨hk, hrecent⟩, hret⟩
  · rw [size_eq_length_keys, size_eq_length_keys, hkeys.length_eq, add_comm]
    exact (length_eq_length_filter_add _).symm
  · refine length_eq_zero_iff.mpr (filter_eq_nil_iff.mpr fun k _ hidle => ?_)
    obtain ⟨h, c, hk, hc, hcidle⟩ := holds_iff.mp hidle
    rw [hs.circuits_eq] at hc
    rw [hs.ttlSecs_eq] at hcidle
    have hnot := (lookup_gc.mp hk).2
    rw [holds_iff.mpr ⟨h, c, (lookup_gc.mp hk).1, hc, hcidle⟩] at hnot
    cases hnot

end VeilNetwork.Anonymity.CircuitTable
