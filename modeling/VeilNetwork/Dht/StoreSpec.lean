import VeilNetwork.Dht.StoreRecords

/-!
# The operations of the store on its records

One theorem for each operation of the tiered store: what it does to the map of records that the
store holds. A promotion keeps the map, up to a record that a full cold tier drops; a removal
takes one key out; a put that is accepted enters a record and may drop others, one that is refused
changes nothing; a sweep keeps the records that are young enough.
-/

namespace VeilNetwork.Dht.TieredStore

open Option Table AList InMemoryCold List Record

variable {s : TieredStore} {T R X : Records} {caps : Option ℕ × Option ℕ} {key k : NodeId}
  {r : Record}

/-! ### Moves between the tiers -/

/-- A demotion keeps the maps, up to one record that a full cold tier drops. -/
theorem Holds.demoteOldestHot (h : Holds caps s T R)
    (hsub : ∀ k r, T.lookup k = some r → R.lookup k = some r) (coldNow : ℕ) :
    ∃ gone : List NodeId, (∀ k ∈ gone, ∃ r, T.lookup k = some r) ∧
      Holds caps (s.demoteOldestHot coldNow) (T.eraseAll gone) (R.eraseAll gone) := by
  rw [TieredStore.demoteOldestHot]
  rcases hhead : s.hotOrder.pairs.head? with _ | ⟨ts, key⟩
  · exact ⟨[], nofun, h⟩
  obtain ⟨e, hkey, rfl⟩ := map_eq_some_iff.mp (h.shelved.hotOrdered.of_head? hhead)
  obtain ⟨r, hr, hvalue, hfirst⟩ := h.shelved.lookup_of_hot hkey
  have hcold := h.shelved.cold_of_hot hkey
  have hmoved := h.shelved.removeHot hkey
  have hback : ∀ k, ((T.erase key).insert key r).lookup k = T.lookup k := fun k => by
    rw [lookup_insert_eq_ite, lookup_erase_eq_ite]
    split
    next heq => rw [heq, hr]
    · rfl
  have hstamps : ∀ k, T.lookup k = none →
      (s.coldFirstSeen.insert key r.firstSeen).lookup k = none := fun k hk => by
    rw [lookup_insert_ne (ne_of_lookup hr hk).symm]
    exact h.stamps k hk
  simp only [hkey, InMemoryCold.get, hcold, ← hvalue, ← hfirst]
  rcases hmoved.coldOrdered.put_cases hcold r.value coldNow with
    heq | ⟨old, v, oldTs, hold, heq⟩
  · rw [heq]
    refine ⟨[], nofun, ?_⟩
    exact ⟨(hmoved.insertCold (lookup_erase key T) r coldNow).congr fun k => (hback k).symm,
      hstamps, h.total, h.charged, h.sameCaps⟩
  · rw [heq]
    have hne : old ≠ key := ne_of_lookup hold hcold
    obtain ⟨r', hr', rfl, -⟩ := h.shelved.lookup_of_cold hold
    refine ⟨[old], fun k hk => ⟨r', mem_singleton.mp hk ▸ hr'⟩, ?_⟩
    -- the demoted key is in, the old one out
    have hin := (hmoved.removeCold (hmoved.hot_of_cold hold)).insertCold
      (by rw [lookup_erase_eq_ite, lookup_erase, ite_self]) r coldNow
    refine holds_accountEviction (hin.congr fun k => ?_) hstamps h.total h.charged h.sameCaps hr'
      (hsub old r' hr')
    rw [lookup_erase_eq_ite, ← hback k, lookup_insert_eq_ite,
      lookup_insert_eq_ite, lookup_erase_eq_ite (T.erase key) old k]
    split
    next heq => rw [if_neg (heq ▸ hne)]
    · rfl

/-- The key under way enters the hot tier; others may go. -/
theorem Holds.insertHot (h : Holds caps s T R) (hsame : ∀ k, k ≠ key → R.lookup k = T.lookup k)
    (hT : T.lookup key = none) (hR : R.lookup key = some r) (ts coldNow : ℕ) :
    ∃ gone : List NodeId, key ∉ gone ∧
      Holds caps (s.insertHot key r.value ts r.firstSeen coldNow) (R.eraseAll gone)
        (R.eraseAll gone) := by
  -- what a demotion before it may have dropped
  have hroom : ∃ gone : List NodeId, (∀ k ∈ gone, ∃ r, T.lookup k = some r) ∧
      Holds caps (if s.hotCapacity ≤ s.hot.size then s.demoteOldestHot coldNow else s)
        (T.eraseAll gone) (R.eraseAll gone) := by
    split
    · refine h.demoteOldestHot (fun k r' hk => ?_) coldNow
      rw [hsame k (ne_of_lookup hk hT), hk]
    · exact ⟨[], nofun, h⟩
  obtain ⟨gone, hgone, hroom⟩ := hroom
  have hkey : key ∉ gone := fun hmem => by
    obtain ⟨r', hr'⟩ := hgone key hmem
    rw [hT] at hr'
    cases hr'
  have hT' : (T.eraseAll gone).lookup key = none := by rw [lookup_eraseAll_of_notMem hkey, hT]
  have heq : ∀ k, (R.eraseAll gone).lookup k = ((T.eraseAll gone).insert key r).lookup k := by
    intro k
    rw [lookup_insert_eq_ite]
    split
    next heq => rw [heq, lookup_eraseAll_of_notMem hkey, hR]
    next hne =>
      by_cases hmem : k ∈ gone
      · rw [lookup_eraseAll_of_mem hmem, lookup_eraseAll_of_mem hmem]
      · rw [lookup_eraseAll_of_notMem hmem, lookup_eraseAll_of_notMem hmem,
          hsame k hne]
  refine ⟨gone, hkey, ?_⟩
  refine ⟨(hroom.shelved.insertHot hT' (hroom.stamps key hT') r ts).congr heq, fun k hk => ?_, ?_,
    hroom.charged, hroom.sameCaps⟩
  · rw [heq, lookup_insert_eq_ite] at hk
    split at hk
    · cases hk
    · exact hroom.stamps k hk
  · rw [sum_eq_of_lookup _ heq, sum_insert_of_lookup_eq_none _ hT', ← hroom.total,
      add_comm]
    rfl

/-- A key is taken out of the cold tier and out of the total, but not off its origin's count. -/
theorem Holds.releaseCold (h : Holds caps s X X) {v : List UInt8} {ts : ℕ}
    (hkey : s.cold.entries.lookup key = some (v, ts)) (now : ℕ) :
    ∃ r s', X.lookup key = some r ∧ r.value = v ∧
      s.releaseCold key v.length now = (s', true, r.firstSeen) ∧ Holds caps s' (X.erase key) X := by
  obtain ⟨r, hr, rfl, hseen⟩ := h.shelved.lookup_of_cold hkey
  have hgone : (s.cold.remove key).entries.lookup key = none := by
    rw [lookup_remove, if_pos rfl]
  refine ⟨r,
    { s with
      cold := s.cold.remove key
      totalBytes := s.totalBytes - r.value.length
      coldFirstSeen := s.coldFirstSeen.erase key }, hr, rfl, ?_,
    (h.shelved.removeCold (h.shelved.hot_of_cold hkey)).forget hgone,
    lookup_erase_eq_none_of_stamps h.stamps key, ?_,
    h.charged, h.sameCaps⟩
  · rw [TieredStore.releaseCold]
    simp only [contains_eq_false hgone, hseen, Bool.false_eq_true, if_false,
      getD_some]
  · rw [h.total, sum_erase_of_lookup_eq_some _ hr, bytes, Nat.add_sub_cancel_left]

/-- **A read keeps the map**, up to what a full cold tier drops. -/
theorem Holds.promote (h : Holds caps s X X) (key : NodeId) (now coldNow : ℕ) :
    ∃ gone : List NodeId, key ∉ gone ∧
      Holds caps (s.promote key now coldNow) (X.eraseAll gone) (X.eraseAll gone) := by
  rw [TieredStore.promote]
  rcases hhot : s.hot.lookup key with _ | e
  · rcases hcold : s.cold.entries.lookup key with _ | ⟨v, ts⟩
    · simp only [InMemoryCold.get, hcold]
      exact ⟨[], not_mem_nil, h⟩
    · obtain ⟨r, s', hr, rfl, heq, hreleased⟩ := h.releaseCold hcold now
      simp only [InMemoryCold.get, hcold, map_some, heq]
      exact hreleased.insertHot (fun k hne => (lookup_erase_ne hne).symm)
        (lookup_erase key X) hr now coldNow
  · exact ⟨[], not_mem_nil, h⟩

/-! ### Removal -/

theorem valueBytes_eq (h : Shelved s.hot s.hotOrder s.cold s.coldFirstSeen X) (key : NodeId) :
    s.valueBytes key = (X.lookup key).elim 0 (Record.bytes key) := by
  rw [valueBytes]
  rcases hhot : s.hot.lookup key with _ | e
  · rcases hcold : s.cold.entries.lookup key with _ | ⟨v, ts⟩
    · have hheld := h.held key
      rw [shelf, hhot, InMemoryCold.get, hcold] at hheld
      rw [InMemoryCold.get, hcold, map_eq_none_iff.mp hheld.symm]
      rfl
    · obtain ⟨r, hr, rfl, -⟩ := h.lookup_of_cold hcold
      rw [InMemoryCold.get, hcold, hr]
      rfl
  · obtain ⟨r, hr, hvalue, -⟩ := h.lookup_of_hot hhot
    rw [hr, elim_some, bytes, hvalue]

/-- What the two halves of `remove` do to the tiers, and the bytes they free. -/
theorem removeTiers (h : Holds caps s X X) (key : NodeId) :
    ∃ hot hotOrder cold,
      ((s.removeHot key).1.removeCold key).1 =
        { s with
          hot := hot
          hotOrder := hotOrder
          cold := cold
          coldFirstSeen := s.coldFirstSeen.erase key } ∧
      (s.removeHot key).2 + ((s.removeHot key).1.removeCold key).2 =
        (X.lookup key).elim 0 (Record.bytes key) ∧
      Shelved hot hotOrder cold (s.coldFirstSeen.erase key) (X.erase key) := by
  have hgone : (s.cold.remove key).entries.lookup key = none := by
    rw [InMemoryCold.lookup_remove, if_pos rfl]
  have hnone := InMemoryCold.contains_eq_false hgone
  rw [removeHot]
  rcases hhot : s.hot.lookup key with _ | e
  · refine ⟨s.hot, s.hotOrder, s.cold.remove key, ?_, ?_,
      (h.shelved.removeCold hhot).forget hgone⟩
    · simp only [removeCold, hnone, Bool.false_eq_true, if_false]
    · rw [← valueBytes_eq h.shelved key, valueBytes, hhot]
      simp only [removeCold, hnone, Bool.false_eq_true, if_false, zero_add]
  · have hcold := h.shelved.cold_of_hot hhot
    have hsame : s.cold.remove key = s.cold := by rw [InMemoryCold.remove, hcold]
    refine ⟨s.hot.erase key, s.hotOrder.drop e.orderTs key, s.cold.remove key, ?_, ?_,
      hsame.symm ▸ (h.shelved.removeHot hhot).forget hcold⟩
    · simp only [removeCold, hnone, Bool.false_eq_true, if_false]
    · rw [← valueBytes_eq h.shelved key, valueBytes, hhot]
      simp only [removeCold, hnone, Bool.false_eq_true, if_false, InMemoryCold.get, hcold,
        map_none, getD_none, add_zero]

/-- **A removal takes one key out.** -/
theorem Holds.remove (h : Holds caps s X X) (key : NodeId) :
    Holds caps (s.remove key) (X.erase key) (X.erase key) := by
  obtain ⟨hot, hotOrder, cold, hstore, hbytes, hshelved⟩ := removeTiers h key
  have hstamps := lookup_erase_eq_none_of_stamps h.stamps key
  have hsum := sum_eq_add_erase bytes X key
  rw [TieredStore.remove]
  simp only [hstore, hbytes]
  split
  · refine holds_uncharge hshelved hstamps ?_ h.charged rfl h.sameCaps
    rw [h.total, hsum, Nat.add_sub_cancel_left]
  · -- a value of no bytes stays on file with its origin
    rename_i hzero
    rw [Nat.pos_iff_ne_zero, not_not] at hzero
    refine ⟨hshelved, hstamps, ?_, charged_erase_of_zero h.charged hzero, h.sameCaps⟩
    rw [h.total, hsum, hzero, zero_add]

/-! ### Making room -/

theorem cold_accountEviction (s : TieredStore) (key : NodeId) (bytes : ℕ) :
    (s.accountEviction key bytes).cold = s.cold := by
  rw [accountEviction, uncharge_eq]

section

variable (h : Holds caps s X X)

include h

/-- A round of the loop drops a record, the one to be replaced only if it is in the cold tier; it
finds none to drop only when no other is left. -/
theorem Holds.evictOne (key : NodeId) :
    (∃ k r s', s.evictOne key = (s', true) ∧ X.lookup k = some r ∧
      Holds caps s' (X.erase k) (X.erase k) ∧
      (s.cold.entries.lookup key = none → k ≠ key ∧ s'.cold.entries.lookup key = none)) ∨
    (s.evictOne key = (s, false) ∧ ∀ k, k ≠ key → X.lookup k = none) := by
  rw [TieredStore.evictOne]
  rcases h.shelved.coldOrdered.evictOldest_cases with ⟨heq, hempty⟩ | ⟨k, v, ts, hk, heq⟩
  · simp only [heq, isEmpty_of_lookup hempty]
    rcases hfind : find? _ s.hotOrder.pairs with _ | ⟨ts, k⟩
    · refine .inr ⟨rfl, fun k hne => ?_⟩
      have hhot : s.hot.lookup k = none := map_eq_none_iff.mp
        (h.shelved.hotOrdered.of_find?_eq_none hfind fun _ => decide_eq_true hne)
      have hheld := h.shelved.held k
      rw [shelf, hhot, InMemoryCold.get, hempty] at hheld
      exact map_eq_none_iff.mp hheld.symm
    · obtain ⟨e, hk, rfl⟩ := map_eq_some_iff.mp (h.shelved.hotOrdered.of_find? hfind)
      obtain ⟨r, hr, hvalue, -⟩ := h.shelved.lookup_of_hot hk
      have hne : k ≠ key := by simpa using find?_some hfind
      simp only [hk, ← hvalue]
      refine .inl ⟨k, r, _, rfl, hr, holds_accountEviction (h.shelved.removeHot hk) h.stamps
        h.total h.charged h.sameCaps hr hr, fun hkey => ⟨hne, ?_⟩⟩
      rwa [cold_accountEviction]
  · obtain ⟨r, hr, rfl, -⟩ := h.shelved.lookup_of_cold hk
    simp only [heq]
    refine .inl ⟨k, r, _, rfl, hr, holds_accountEviction (h.shelved.removeCold
      (h.shelved.hot_of_cold hk)) h.stamps h.total h.charged h.sameCaps hr hr, fun hkey =>
        ⟨ne_of_lookup hk hkey, ?_⟩⟩
    rw [cold_accountEviction, lookup_remove, hkey, ite_self]

variable {incumbentBytes newBytes : ℕ}

theorem Holds.exceeds_eq_false (hsum : X.sum Record.bytes ≤ incumbentBytes)
    (hnew : ∀ cap, caps.1 = some cap → newBytes ≤ cap) :
    s.exceeds incumbentBytes newBytes = false := by
  rw [exceeds, h.maxBytes_eq]
  rcases hmax : caps.1 with _ | cap
  · rfl
  · have hle := hnew cap hmax
    rw [h.total]
    exact decide_eq_false (by omega)

/-- **The loop makes room**, if it is given one round more than there are records: in the end the
new value fits, as far as the loop can tell. -/
theorem Holds.makeRoom (hinc : (X.lookup key).elim 0 (Record.bytes key) ≤ incumbentBytes)
    (hnew : ∀ cap, caps.1 = some cap → newBytes ≤ cap) (rounds : ℕ) (hrounds : X.size < rounds) :
    ∃ gone : List NodeId,
      Holds caps (s.makeRoom key incumbentBytes newBytes rounds) (X.eraseAll gone)
        (X.eraseAll gone) ∧
      (s.makeRoom key incumbentBytes newBytes rounds).exceeds incumbentBytes newBytes = false ∧
      (s.cold.entries.lookup key = none → key ∉ gone) := by
  induction rounds generalizing s X with
  | zero => cases hrounds
  | succ rounds ih =>
    rw [TieredStore.makeRoom]
    split
    next hexceeds =>
      rcases h.evictOne key with ⟨k, r, s', heq, hk, hnext, hother⟩ | ⟨-, hlast⟩
      · have hsize : size (X.erase k) < X.size :=
          size_lt_of_lookup (fun _ _ hold => (lookup_erase_eq_some hold).2) hk
            (lookup_erase k X)
        have hinc' : ((X.erase k).lookup key).elim 0 (bytes key) ≤ incumbentBytes := by
          rw [lookup_erase_eq_ite]
          split
          · exact Nat.zero_le _
          · exact hinc
        obtain ⟨gone, hholds, hfits, hkept⟩ := ih hnext hinc' (by omega)
        simp only [heq]
        refine ⟨k :: gone, hholds, hfits, fun hkey => ?_⟩
        rw [mem_cons, not_or]
        exact ⟨(hother hkey).1.symm, hkept (hother hkey).2⟩
      · -- with only the incumbent left there would be room
        have hnone : ∀ k, (X.erase key).lookup k = (∅ : Records).lookup k := fun k => by
          rw [lookup_erase_eq_ite]
          split
          · rfl
          next hne => exact hlast k hne
        have hsum : X.sum bytes ≤ incumbentBytes := by
          rwa [sum_eq_add_erase _ X key, sum_eq_of_lookup _ hnone]
        rw [h.exceeds_eq_false hsum hnew] at hexceeds
        cases hexceeds
    next hfits => exact ⟨[], h, Bool.eq_false_iff.mpr hfits, fun _ => not_mem_nil⟩

/-! ### Puts -/

/-- One map is another with a record entered; other records may be missing. -/
structure Entered (X Y : Records) (key : NodeId) (r : Record) : Prop where
  new : Y.lookup key = some r
  old : ∀ k r', k ≠ key → Y.lookup k = some r' → X.lookup k = some r'

/-- A put does not have to make room while the value it replaces lies in the cold tier. -/
def Roomy (s : TieredStore) (key : NodeId) (newBytes : ℕ) : Prop :=
  s.exceeds (s.valueBytes key) newBytes = true → s.cold.contains key = false

theorem Holds.size_eq : X.size = s.hot.size + s.cold.len := by
  rw [len, size_eq_sum, size_eq_sum, size_eq_sum]
  exact h.shelved.sum_eq (g := fun _ _ => 1) fun _ _ _ => rfl

/-- The loop of a put: room is made, and the record to be replaced goes only where the put is not
roomy. -/
theorem Holds.makeRoom_put (key : NodeId) {newBytes : ℕ}
    (hnew : ∀ cap, caps.1 = some cap → newBytes ≤ cap) :
    ∃ gone : List NodeId,
      Holds caps (s.makeRoom key (s.valueBytes key) newBytes (s.hot.size + s.cold.len + 1))
        (X.eraseAll gone) (X.eraseAll gone) ∧
      (s.makeRoom key (s.valueBytes key) newBytes (s.hot.size + s.cold.len + 1)).exceeds
        (s.valueBytes key) newBytes = false ∧
      (s.Roomy key newBytes → key ∉ gone) := by
  have hinc : (X.lookup key).elim 0 (bytes key) ≤ s.valueBytes key :=
    (valueBytes_eq h.shelved key).ge
  rcases hexceeds : s.exceeds (s.valueBytes key) newBytes with _ | _
  · -- the loop is not entered
    rw [TieredStore.makeRoom, hexceeds]
    exact ⟨[], h, hexceeds, fun _ => not_mem_nil⟩
  · obtain ⟨gone, hholds, hfits, hkept⟩ := h.makeRoom hinc hnew _
      (Nat.lt_succ_of_le h.size_eq.le)
    refine ⟨gone, hholds, hfits, fun hroomy => hkept ?_⟩
    have hcold := hroomy hexceeds
    rw [InMemoryCold.contains, isSome_eq_false_iff, isNone_iff_eq_none] at hcold
    exact hcold

/-- **A put** is refused and changes nothing, or it enters its record. What it leaves fits the cap,
if the put is roomy. -/
theorem Holds.putWithOriginAt (key : NodeId) (value : List UInt8) (origin : NodeId)
    (ts coldNow : ℕ) :
    s.putWithOriginAt key value origin ts coldNow = (s, false) ∨
      ∃ s' Y, s.putWithOriginAt key value origin ts coldNow = (s', true) ∧ Holds caps s' Y Y ∧
        Entered X Y key ⟨value, origin, ts⟩ ∧
        s.exceedsOrigin key value.length origin = false ∧
        (s.Roomy key value.length → ∀ cap, caps.1 = some cap → Y.sum Record.bytes ≤ cap) := by
  rw [TieredStore.putWithOriginAt]
  split
  · exact .inl rfl
  rename_i horigin
  split
  · exact .inl rfl
  rename_i hlarge
  have hnew : ∀ cap, caps.1 = some cap → value.length ≤ cap := fun cap hcap => by
    rw [h.maxBytes_eq, hcap] at hlarge
    simpa using hlarge
  obtain ⟨gone, hroom, hfits, hkept⟩ := h.makeRoom_put key hnew
  dsimp only
  generalize s.makeRoom key (s.valueBytes key) value.length (s.hot.size + s.cold.len + 1) = room
    at hroom hfits ⊢
  have hnone : ((X.eraseAll gone).erase key).lookup key = none := lookup_erase key _
  have hcharged := (hroom.remove key).charge hnone ⟨value, origin, ts⟩
  obtain ⟨gone', hkey, hdone⟩ := hcharged.insertHot (fun k hne => lookup_insert_ne hne) hnone
    (lookup_insert _) ts coldNow
  simp only [hfits]
  refine .inr ⟨((room.remove key).charge key origin value.length).insertHot key value ts ts
    coldNow, eraseAll (((X.eraseAll gone).erase key).insert key ⟨value, origin, ts⟩) gone',
    rfl, hdone, ⟨?_, fun k r' hne hk => ?_⟩, Bool.eq_false_iff.mpr horigin,
    fun hroomy cap hcap => ?_⟩
  · rw [lookup_eraseAll_of_notMem hkey, lookup_insert]
  · have hk := (lookup_of_lookup_eraseAll hk).2
    rw [lookup_insert_ne hne, lookup_erase_ne hne] at hk
    exact (lookup_of_lookup_eraseAll hk).2
  · -- the record to be replaced is still there, so that its bytes are refunded once
    have hinc : ((X.eraseAll gone).lookup key).elim 0 (bytes key) = s.valueBytes key := by
      rw [lookup_eraseAll_of_notMem (hkept hroomy), valueBytes_eq h.shelved key]
    have hsum := sum_eq_add_erase bytes (X.eraseAll gone) key
    rw [exceeds, hroom.maxBytes_eq, hcap, hroom.total, hsum, hinc, Nat.add_sub_cancel_left,
      decide_eq_false_iff_not, not_lt] at hfits
    calc sum bytes _
        ≤ sum bytes
            (((X.eraseAll gone).erase key).insert key ⟨value, origin, ts⟩) :=
          sum_le_of_lookup _ fun _ _ hk => (lookup_of_lookup_eraseAll hk).2
      _ = value.length + sum bytes ((X.eraseAll gone).erase key) :=
          sum_insert_of_lookup_eq_none _ hnone _
      _ ≤ cap := by omega

end

end VeilNetwork.Dht.TieredStore
