import VeilNetwork.Dht.StoreSpec

/-!
# The sweep on the records

`retain_fresh` and `retain_fresh_age_only`. The sweep takes entries out of the tiers first and
settles the counters afterwards, from the list of what went: keys with the bytes they had. The
same key can be listed twice, once with its bytes and then with none, since a record whose own
stamp is too old may already have gone by its value or by the time of its demotion. Such a list is
a bill in the sense of `Table.Bills`, and the counters are right once it is paid.
-/

namespace VeilNetwork.Dht.TieredStore

open List Table Option InMemoryCold Prod

variable {s : TieredStore} {X : Records} {caps : Option ℕ × Option ℕ} {key : NodeId}

/-! ### Paying a bill -/

/-- The counts of the origins after a bill is paid. The table of stamps may be changed at each key
as well; the hot half of the sweep leaves it alone, the cold half drops the key. -/
theorem exists_foldl_uncharge (g : Table NodeId ℕ → NodeId → Table NodeId ℕ)
    (l : List (NodeId × ℕ)) (s : TieredStore) :
    ∃ entryOrigin originBytes,
      l.foldl (fun s e =>
        uncharge { s with coldFirstSeen := g s.coldFirstSeen e.1 } e.1 e.2) s =
        { s with
          coldFirstSeen := (l.map Prod.fst).foldl g s.coldFirstSeen
          entryOrigin := entryOrigin
          originBytes := originBytes } ∧
      ∀ R : Records, Charged s.entryOrigin s.originBytes R → Table.Bills Record.bytes R l →
        Charged entryOrigin originBytes (R.eraseAll (l.map Prod.fst)) := by
  induction l generalizing s with
  | nil => exact ⟨_, _, rfl, fun R h _ => h⟩
  | cons e l ih =>
    obtain ⟨entryOrigin, originBytes, heq, hcharged⟩ :=
      ih (uncharge { s with coldFirstSeen := g s.coldFirstSeen e.1 } e.1 e.2)
    refine ⟨entryOrigin, originBytes, ?_, fun R h hbills => ?_⟩
    · rw [foldl_cons, heq, uncharge_eq]
      rfl
    · exact hcharged _ (charged_uncharge h hbills.1) hbills.2

/-! ### The hot tier -/

/-- **The hot half of the sweep** drops records, and those that stay hot are young. -/
theorem Holds.sweepHot (h : Holds caps s X X) (now ttl : ℕ) (expired : Option (List UInt8 → Bool)) :
    ∃ gone : List NodeId,
      Holds caps (s.sweepHot now ttl expired) (X.eraseAll gone) (X.eraseAll gone) ∧
      ∀ k e, (s.sweepHot now ttl expired).hot.lookup k = some e → now - e.firstSeen < ttl := by
  have hfreed : ∀ e ∈ s.freedHot now ttl expired, s.hot.lookup e.1 = some e.2 :=
    fun e he => (mem_rejected.mp he).1
  have hnodup : ((s.freedHot now ttl expired).map fst).Nodup := s.hot.nodup_rejected _
  -- what goes, with its bytes
  have hkeys : ((s.freedHot now ttl expired).map fun e => (e.1, e.2.value.length)).map fst =
      (s.freedHot now ttl expired).map fst := by
    rw [List.map_map]
    rfl
  have hbills : Table.Bills Record.bytes X
      ((s.freedHot now ttl expired).map fun e => (e.1, e.2.value.length)) := by
    refine bills_of_nodup (by rw [hkeys]; exact hnodup) fun b hb => ?_
    obtain ⟨e, he, rfl⟩ := mem_map.mp hb
    obtain ⟨r, hr, hvalue, -⟩ := h.shelved.lookup_of_hot (hfreed e he)
    rw [hr, elim_some, Record.bytes, hvalue]
  have hsum := sum_eq_of_bills hbills
  obtain ⟨entryOrigin, originBytes, heq, hcharged⟩ := exists_foldl_uncharge (fun t _ => t)
    ((s.freedHot now ttl expired).map fun e => (e.1, e.2.value.length))
    { s with
      hot := s.hot.retain fun _ e => keepsHot now ttl expired e
      hotOrder := (s.freedHot now ttl expired).foldl (fun o e => o.drop e.2.orderTs e.1)
        s.hotOrder }
  rw [foldl_map, foldl_fixed] at heq
  rw [hkeys] at hsum hcharged
  rw [List.map_map] at hsum
  refine ⟨(s.freedHot now ttl expired).map fst, ?_, fun k e hk => ?_⟩
  · rw [TieredStore.sweepHot, heq]
    refine ⟨(h.shelved.removeHots hnodup hfreed).congrHot
      (s.hot.lookup_retain_eq_lookup_eraseAll _), ?_, ?_, hcharged X h.charged hbills, h.sameCaps⟩
    · intro k hk
      by_cases hmem : k ∈ (s.freedHot now ttl expired).map fst
      · obtain ⟨e, he, rfl⟩ := mem_map.mp hmem
        exact h.shelved.unstamped e.1 e.2 (hfreed e he)
      · rw [lookup_eraseAll_of_notMem hmem] at hk
        exact h.stamps k hk
    · rw [h.total, hsum]
      exact Nat.add_sub_cancel_left _ _
  · rw [TieredStore.sweepHot, heq, lookup_retain] at hk
    obtain ⟨-, hkeeps⟩ := filter_eq_some_iff.mp hk
    rw [keepsHot, Bool.and_eq_true, decide_eq_true_eq] at hkeeps
    exact hkeeps.1

/-! ### The cold tier -/

/-- Keys have been taken out of the cold tier, against a bill that is not paid yet. -/
structure Drained (X : Records) (s₀ s : TieredStore) (bill : List (NodeId × ℕ)) : Prop where
  shelved : Shelved s.hot s.hotOrder s.cold s.coldFirstSeen (X.eraseAll (bill.map Prod.fst))
  bills : Table.Bills Record.bytes X bill
  same : s = { s₀ with cold := s.cold, coldFirstSeen := s.coldFirstSeen }
  stamps : ∀ k f, s.coldFirstSeen.lookup k = some f → s₀.coldFirstSeen.lookup k = some f

namespace Drained

variable {s₀ : TieredStore} {bill : List (NodeId × ℕ)}

theorem drop (h : Drained X s₀ s bill) (hkey : s.hot.lookup key = none) :
    Drained X s₀ { s with cold := s.cold.remove key } (bill ++ [(key, s.valueBytes key)]) where
  shelved := by
    rw [map_append, eraseAll_append]
    exact h.shelved.removeCold hkey
  bills := bills_append.mpr ⟨h.bills, valueBytes_eq h.shelved key, trivial⟩
  same := by rw [h.same]
  stamps := h.stamps

theorem forget (h : Drained X s₀ s bill) (hkey : s.cold.entries.lookup key = none) :
    Drained X s₀ { s with coldFirstSeen := s.coldFirstSeen.erase key } bill where
  shelved := h.shelved.forget hkey
  bills := h.bills
  same := by rw [h.same]
  stamps k f hk := h.stamps k f (lookup_erase_eq_some hk).2

/-- Keys go by value. -/
theorem retain (h : Shelved s.hot s.hotOrder s.cold s.coldFirstSeen X)
    (f : NodeId → List UInt8 → Bool) :
    Drained X s { s with cold := (s.cold.retain f).1 } (s.cold.retain f).2 := by
  have hkeys : (s.cold.retain f).2.map fst =
      (s.cold.entries.rejected fun k e => f k e.1).map fst := map_map
  have hgone : ∀ e ∈ s.cold.entries.rejected fun k e => f k e.1,
      s.cold.entries.lookup e.1 = some e.2 := fun e he => (mem_rejected.mp he).1
  refine ⟨?_, ?_, rfl, fun _ _ hk => hk⟩
  · rw [hkeys]
    refine h.shrinkCold (h.coldOrdered.retain f) (fun k hk => ?_)
      (s.cold.entries.lookup_retain_eq_lookup_eraseAll _)
    obtain ⟨e, he, rfl⟩ := mem_map.mp hk
    exact h.hot_of_cold (hgone e he)
  · refine bills_of_nodup (by rw [hkeys]; exact s.cold.entries.nodup_rejected _) ?_
    intro b hb
    obtain ⟨e, he, rfl⟩ := mem_map.mp hb
    obtain ⟨r, hr, hvalue, -⟩ := h.lookup_of_cold (hgone e he)
    rw [hr, elim_some, Record.bytes, hvalue]

/-- A key goes by the time of its demotion. -/
theorem expire {r : InMemoryCold × List (NodeId × ℕ)}
    (h : Drained X s₀ { s with cold := r.1 } (bill ++ r.2)) (key : NodeId) :
    Drained X s₀ { s with cold := (InMemoryCold.expire r key).1 }
      (bill ++ (InMemoryCold.expire r key).2) := by
  rw [InMemoryCold.expire]
  rcases hkey : r.1.entries.lookup key with _ | ⟨v, ts⟩
  · exact h
  · have hhot := h.shelved.hot_of_cold hkey
    have hbytes : valueBytes { s with cold := r.1 } key = v.length := by
      rw [valueBytes, hhot, InMemoryCold.get, hkey]
      rfl
    have hdrop := h.drop hhot
    rw [hbytes, append_assoc] at hdrop
    exact hdrop

theorem retainNewerThan (h : Drained X s₀ s bill) (cutoff : ℕ) :
    Drained X s₀ { s with cold := (s.cold.retainNewerThan cutoff).1 }
      (bill ++ (s.cold.retainNewerThan cutoff).2) := by
  have hfold : ∀ (keys : List NodeId) (r : InMemoryCold × List (NodeId × ℕ)),
      Drained X s₀ { s with cold := r.1 } (bill ++ r.2) →
        Drained X s₀ { s with cold := (keys.foldl InMemoryCold.expire r).1 }
          (bill ++ (keys.foldl InMemoryCold.expire r).2) := by
    intro keys
    induction keys with
    | nil => exact fun _ hr => hr
    | cons key keys ih => exact fun r hr => ih _ (hr.expire key)
  exact hfold _ (s.cold, []) (by rw [append_nil]; exact h)

/-- A key goes by its own stamp. -/
theorem sweepStale (h : Drained X s₀ s bill) (hkey : s.hot.lookup key = none) (now : ℕ) :
    ∃ s' bytes, TieredStore.sweepStale now (s, bill) key = (s', bill ++ [(key, bytes)]) ∧
      Drained X s₀ s' (bill ++ [(key, bytes)]) := by
  have hgone : (s.cold.remove key).entries.lookup key = none := by
    rw [lookup_remove, if_pos rfl]
  refine ⟨_, _, ?_, (h.drop hkey).forget hgone⟩
  simp only [TieredStore.sweepStale, releaseCold, contains_eq_false hgone,
    Bool.false_eq_true, if_false, if_true, Nat.sub_zero]

theorem foldl_sweepStale (h : Drained X s₀ s bill) {keys : List NodeId}
    (hkeys : ∀ k ∈ keys, s₀.hot.lookup k = none) (now : ℕ) :
    ∃ s' paid, keys.foldl (TieredStore.sweepStale now) (s, bill) = (s', bill ++ paid) ∧
      Drained X s₀ s' (bill ++ paid) ∧ ∀ k ∈ keys, k ∈ paid.map Prod.fst := by
  induction keys generalizing s bill with
  | nil => exact ⟨s, [], by rw [append_nil]; rfl, by rwa [append_nil], fun _ hk => hk⟩
  | cons key keys ih =>
    have hkey : s.hot.lookup key = none := by
      rw [h.same]
      exact hkeys key mem_cons_self
    obtain ⟨s', bytes, heq, hnext⟩ := h.sweepStale hkey now
    obtain ⟨s'', paid, heq', hdone, hpaid⟩ :=
      ih hnext fun k hk => hkeys k (mem_cons_of_mem _ hk)
    rw [append_assoc] at heq' hdone
    refine ⟨s'', (key, bytes) :: paid, by rw [foldl_cons, heq, heq']; rfl, hdone, ?_⟩
    rintro k (_ | ⟨_, hk⟩)
    · exact mem_cons_self
    · exact mem_cons_of_mem _ (hpaid k hk)

end Drained

section

variable (h : Holds caps s X X) (now ttl : ℕ) (expired : Option (List UInt8 → Bool))

include h

/-- What the sweep takes out of the cold tier: among it every key with a stamp that is too old. -/
theorem Holds.sweepColdTier :
    ∃ s' bill, s.sweepColdTier now ttl expired = (s', bill) ∧ Drained X s s' bill ∧
      ∀ k f, s.coldFirstSeen.lookup k = some f → ttl < now - f → k ∈ bill.map Prod.fst := by
  have hvalue : Drained X s { s with cold := (sweepByValue s.cold expired).1 }
      (sweepByValue s.cold expired).2 := by
    cases expired with
    | some => exact .retain h.shelved ..
    | none => exact ⟨h.shelved, trivial, rfl, fun _ _ hk => hk⟩
  rw [TieredStore.sweepColdTier]
  split
  · -- a key with a stamp is not hot
    have hstale : ∀ k ∈ (s.coldFirstSeen.entries.filter fun e =>
        decide (e.2 < now - ttl)).map Sigma.fst, s.hot.lookup k = none := by
      intro k hk
      obtain ⟨e, he, rfl⟩ := mem_map.mp hk
      have hstamp : s.coldFirstSeen.lookup e.1 = some e.2 :=
        lookup_eq_some_iff.mpr (mem_filter.mp he).1
      rcases hhot : s.hot.lookup e.1 with _ | entry
      · rfl
      · rw [h.shelved.unstamped e.1 entry hhot] at hstamp
        cases hstamp
    obtain ⟨s', paid, heq, hdone, hpaid⟩ :=
      (hvalue.retainNewerThan (now - ttl)).foldl_sweepStale hstale now
    refine ⟨s', _, heq, hdone, fun k f hk hold => ?_⟩
    rw [map_append, mem_append]
    refine .inr (hpaid k (mem_map.mpr ⟨⟨k, f⟩, mem_filter.mpr ⟨?_, ?_⟩, rfl⟩))
    · exact lookup_eq_some_iff.mp hk
    · exact decide_eq_true (show f < now - ttl by omega)
  · refine ⟨_, _, rfl, hvalue, fun k f _ hold => ?_⟩
    omega

/-- **The cold half of the sweep** drops records, and those that stay cold are young. -/
theorem Holds.sweepCold :
    ∃ gone : List NodeId,
      Holds caps (s.sweepCold now ttl expired) (X.eraseAll gone) (X.eraseAll gone) ∧
      ∀ k r, (X.eraseAll gone).lookup k = some r → now - r.firstSeen ≤ ttl ∨
        ∃ e, s.hot.lookup k = some e ∧ e.firstSeen = r.firstSeen := by
  obtain ⟨s', bill, heq, hdrained, hold⟩ := h.sweepColdTier now ttl expired
  obtain ⟨entryOrigin, originBytes, hpaid, hcharged⟩ :=
    exists_foldl_uncharge (fun t k => t.erase k) bill s'
  have hsum := sum_eq_of_bills hdrained.bills
  refine ⟨bill.map fst, ?_, fun k r hk => ?_⟩
  · have htotal : s'.totalBytes = s.totalBytes := by rw [hdrained.same]
    have hcharged₀ : Charged s'.entryOrigin s'.originBytes X := by
      rw [hdrained.same]
      exact h.charged
    have hcaps : (s'.maxBytes, s'.perOriginMaxBytes) = caps := by
      rw [hdrained.same]
      exact h.sameCaps
    rw [TieredStore.sweepCold, heq, hpaid]
    refine ⟨hdrained.shelved.forgetAll fun k hk => ?_, fun k hk => ?_, ?_,
      hcharged X hcharged₀ hdrained.bills, hcaps⟩
    · exact hdrained.shelved.cold_of_lookup_eq_none (lookup_eraseAll_of_mem hk)
    · change (s'.coldFirstSeen.eraseAll (bill.map fst)).lookup k = none
      by_cases hmem : k ∈ bill.map fst
      · exact lookup_eraseAll_of_mem hmem
      · rw [lookup_eraseAll_of_notMem hmem] at hk ⊢
        refine eq_none_iff_forall_ne_some.mpr fun f hf => ?_
        have hstamp := hdrained.stamps k f hf
        rw [h.stamps k hk] at hstamp
        cases hstamp
    · rw [htotal, h.total, hsum, Nat.add_sub_cancel_left]
  · obtain ⟨hmem, hk⟩ := lookup_of_lookup_eraseAll hk
    rcases hhot : s.hot.lookup k with _ | e
    · refine .inl (Nat.le_of_not_lt fun hlt => hmem ?_)
      have hin : k ∈ s.cold.entries := ((h.shelved.mem_iff k).mp
        (AList.lookup_isSome.mp (by rw [hk]; rfl))).resolve_left (AList.lookup_eq_none.mp hhot)
      obtain ⟨⟨v, ts⟩, hcold⟩ := isSome_iff_exists.mp (AList.lookup_isSome.mpr hin)
      obtain ⟨r', hr', -, hstamp⟩ := h.shelved.lookup_of_cold hcold
      rw [hk] at hr'
      cases hr'
      exact hold k _ hstamp hlt
    · obtain ⟨r', hr', -, hfirst⟩ := h.shelved.lookup_of_hot hhot
      rw [hk] at hr'
      cases hr'
      exact .inr ⟨e, rfl, hfirst.symm⟩

/-- **The sweep keeps some of the records, and only young ones.** -/
theorem Holds.retainFreshInner :
    ∃ Y, Holds caps (s.retainFreshInner now ttl expired) Y Y ∧
      ∀ k r, Y.lookup k = some r → X.lookup k = some r ∧ now - r.firstSeen ≤ ttl := by
  obtain ⟨gone, hhot, hyoung⟩ := h.sweepHot now ttl expired
  obtain ⟨gone', hcold, hrest⟩ := hhot.sweepCold now ttl expired
  refine ⟨_, hcold, fun k r hk => ⟨?_, ?_⟩⟩
  · exact (lookup_of_lookup_eraseAll (lookup_of_lookup_eraseAll hk).2).2
  · rcases hrest k r hk with hage | ⟨e, he, hfirst⟩
    · exact hage
    · have hage := hyoung k e he
      omega

end

end VeilNetwork.Dht.TieredStore
