import VeilNetwork.Dht.Store

/-!
# The records of the store

What the tiered store is for: a finite map from keys to records, each a value with the origin that
put it and the time it was first seen. Tiers, their indices and the three places of a stamp are
ways to hold such a map, and the counters are sums over it. A move between the tiers leaves the
map as it is, except that a full cold tier drops a record.

`TieredStore.Holds` is that reading of a store. It takes two maps: what lies in the tiers, which
the total counts, and what is charged to the origins. They differ only inside an operation, by the
key under way. Each operation of the store is then followed on the map.
-/

namespace VeilNetwork.Dht

open List Option Table AList Prod

structure Record where
  value : List UInt8
  origin : NodeId
  firstSeen : ℕ

abbrev Records : Type := Table NodeId Record

namespace Record

/-- What a record counts for in the total. -/
def bytes (_ : NodeId) (r : Record) : ℕ := r.value.length

/-- What a record counts for with an origin. -/
def bytesOf (origin : NodeId) (_ : NodeId) (r : Record) : ℕ :=
  if r.origin = origin then r.value.length else 0

end Record

/-! ### The cold tier -/

namespace InMemoryCold

variable {c : InMemoryCold} {key k : NodeId}

/-- The index lists the entries. -/
def Ordered (c : InMemoryCold) : Prop :=
  c.order.Lists fun k => (c.entries.lookup k).map Prod.snd

/-- Enter a value under a key that has none. -/
def insert (c : InMemoryCold) (key : NodeId) (value : List UInt8) (ts : ℕ) : InMemoryCold :=
  { c with entries := c.entries.insert key (value, ts), order := c.order.add ts key }

theorem lookup_remove (c : InMemoryCold) (key k : NodeId) :
    (c.remove key).entries.lookup k = if k = key then none else c.entries.lookup k := by
  rw [remove]
  split
  · exact lookup_erase_eq_ite c.entries key k
  next hnone =>
    split
    next heq => rw [heq, hnone]
    · rfl

section

variable (h : c.Ordered)

include h

theorem Ordered.remove (key : NodeId) : (c.remove key).Ordered := by
  have hlookup := c.lookup_remove key
  rw [InMemoryCold.remove] at hlookup ⊢
  split
  next v ts hkey =>
    rw [hkey] at hlookup
    refine .drop h (by rw [hkey]; rfl) fun k => ?_
    rw [hlookup, apply_ite (Option.map snd)]
    rfl
  · exact h

theorem Ordered.insert (hkey : c.entries.lookup key = none) (value : List UInt8) (ts : ℕ) :
    (c.insert key value ts).Ordered := by
  refine .add h (by rw [hkey]; rfl) fun k => ?_
  rw [InMemoryCold.insert, lookup_insert_eq_ite, apply_ite (Option.map snd)]
  rfl

theorem Ordered.congr {c' : InMemoryCold} (horder : c'.order = c.order)
    (hlookup : ∀ k, c'.entries.lookup k = c.entries.lookup k) : c'.Ordered := by
  rw [Ordered, horder]
  exact .congr h fun k => by rw [hlookup]

/-- Several entries are taken out of the index. -/
theorem Ordered.eraseAll {l : List (NodeId × List UInt8 × ℕ)} (hnodup : (l.map Prod.fst).Nodup)
    (hl : ∀ e ∈ l, c.entries.lookup e.1 = some e.2) :
    Ordered { c with
      entries := c.entries.eraseAll (l.map Prod.fst)
      order := l.foldl (fun o e => o.drop e.2.2 e.1) c.order } := by
  induction l generalizing c with
  | nil => exact h
  | cons e l ih =>
    obtain ⟨hnot, hnodup⟩ := nodup_cons.mp hnodup
    have hkey := hl e mem_cons_self
    have hnext := h.remove e.1
    rw [InMemoryCold.remove, hkey] at hnext
    refine ih hnext hnodup fun e' he' => ?_
    have hne : e'.1 ≠ e.1 := fun heq => hnot (mem_map.mpr ⟨e', he', heq⟩)
    exact (lookup_erase_ne hne).trans (hl e' (mem_cons_of_mem _ he'))

theorem Ordered.retain (f : NodeId → List UInt8 → Bool) : (c.retain f).1.Ordered :=
  (h.eraseAll (c.entries.nodup_rejected _) fun _ he => (mem_rejected.mp he).1).congr rfl
    (c.entries.lookup_retain_eq_lookup_eraseAll _)

/-- An eviction takes an entry away, and none only from an empty tier. -/
theorem Ordered.evictOldest_cases :
    (c.evictOldest = (c, none) ∧ ∀ k, c.entries.lookup k = none) ∨
      ∃ key v ts, c.entries.lookup key = some (v, ts) ∧
        c.evictOldest = (c.remove key, some (key, v)) := by
  have hlists : c.order.Lists fun k => (c.entries.lookup k).map snd := h
  rw [evictOldest]
  rcases hhead : c.order.pairs.head? with _ | ⟨ts, key⟩
  · refine .inl ⟨rfl, fun k => ?_⟩
    exact map_eq_none_iff.mp (hlists.of_head?_eq_none hhead)
  · obtain ⟨⟨v, ts'⟩, hkey, rfl⟩ := map_eq_some_iff.mp (hlists.of_head? hhead)
    refine .inr ⟨key, v, ts', hkey, ?_⟩
    simp only [InMemoryCold.remove, InMemoryCold.get, hkey, map_some]

/-- A put enters the value, once a full tier has dropped another key. -/
theorem Ordered.put_cases (hkey : c.entries.lookup key = none) (value : List UInt8) (ts : ℕ) :
    c.put key value ts = (c.insert key value ts, .stored none) ∨
      ∃ old v oldTs, c.entries.lookup old = some (v, oldTs) ∧
        c.put key value ts = ((c.remove old).insert key value ts, .stored (some (old, v))) := by
  have hremove : ∀ c : InMemoryCold, c.entries.lookup key = none → c.remove key = c := by
    intro c hc
    rw [InMemoryCold.remove, hc]
  rw [put]
  split
  · rcases h.evictOldest_cases with ⟨heq, -⟩ | ⟨old, v, oldTs, hold, heq⟩
    · rw [heq, hremove c hkey]
      exact .inl rfl
    · refine .inr ⟨old, v, oldTs, hold, ?_⟩
      rw [heq, hremove (c.remove old) (by rw [lookup_remove, hkey, ite_self])]
      rfl
  · rw [hremove c hkey]
    exact .inl rfl

end

theorem contains_eq_false (h : c.entries.lookup key = none) : c.contains key = false := by
  rw [contains, h]
  rfl

theorem isEmpty_of_lookup (h : ∀ k, c.entries.lookup k = none) : c.isEmpty = true := by
  have hnil : c.entries.keys = [] := by
    refine eq_nil_iff_forall_not_mem.mpr fun k hk => ?_
    exact lookup_eq_none.mp (h k) (mem_keys.mpr hk)
  rw [isEmpty, len, size_eq_length_keys, hnil]
  rfl

end InMemoryCold

/-! ### What lies in the tiers -/

/-- The value of a key, with the time it was first seen. -/
def shelf (hot : Table NodeId HotEntry) (cold : InMemoryCold) (coldFirstSeen : Table NodeId ℕ)
    (k : NodeId) : Option (List UInt8 × ℕ) :=
  match hot.lookup k with
  | some e => some (e.value, e.firstSeen)
  | none => (cold.get k).map fun v => (v, (coldFirstSeen.lookup k).getD 0)

/-- The tiers hold a map of records: no key lies in both, the indices list their tiers, and the
stamps of the cold tier are those of its keys. A stamp may outlive its key for a moment, but not
until the key is hot again. -/
structure Shelved (hot : Table NodeId HotEntry) (hotOrder : AgeIndex NodeId) (cold : InMemoryCold)
    (coldFirstSeen : Table NodeId ℕ) (T : Records) : Prop where
  apart : ∀ k, hot.lookup k = none ∨ cold.entries.lookup k = none
  hotOrdered : hotOrder.Lists fun k => (hot.lookup k).map HotEntry.orderTs
  coldOrdered : cold.Ordered
  stamped : ∀ k e, cold.entries.lookup k = some e → ∃ f, coldFirstSeen.lookup k = some f
  unstamped : ∀ k e, hot.lookup k = some e → coldFirstSeen.lookup k = none
  held : ∀ k, shelf hot cold coldFirstSeen k = (T.lookup k).map fun r => (r.value, r.firstSeen)

namespace Shelved

variable {hot : Table NodeId HotEntry} {hotOrder : AgeIndex NodeId} {cold : InMemoryCold}
  {coldFirstSeen : Table NodeId ℕ} {T T' : Records} {key : NodeId} {e : HotEntry} {r : Record}

theorem congr (h : Shelved hot hotOrder cold coldFirstSeen T)
    (hT : ∀ k, T'.lookup k = T.lookup k) : Shelved hot hotOrder cold coldFirstSeen T' :=
  { h with held := fun k => (hT k).symm ▸ h.held k }

variable {hot' : Table NodeId HotEntry}

theorem congrHot (h : Shelved hot hotOrder cold coldFirstSeen T)
    (hhot : ∀ k, hot'.lookup k = hot.lookup k) :
    Shelved hot' hotOrder cold coldFirstSeen T where
  apart k := (hhot k).symm ▸ h.apart k
  hotOrdered := h.hotOrdered.congr fun k => by rw [hhot]
  coldOrdered := h.coldOrdered
  stamped := h.stamped
  unstamped k e hk := h.unstamped k e (hhot k ▸ hk)
  held k := by rw [← h.held k, shelf, shelf, hhot]

theorem empty (capacity : ℕ) : Shelved ∅ OrdMap.empty (.new capacity) ∅ ∅ where
  apart _ := .inl rfl
  hotOrdered := AgeIndex.lists_empty fun _ => rfl
  coldOrdered := AgeIndex.lists_empty fun _ => rfl
  stamped _ _ h := nomatch h
  unstamped _ _ h := nomatch h
  held _ := rfl

section

variable (h : Shelved hot hotOrder cold coldFirstSeen T)

include h

theorem hot_of_cold {e : List UInt8 × ℕ} (hkey : cold.entries.lookup key = some e) :
    hot.lookup key = none := (h.apart key).resolve_right fun hnone => by
  rw [hnone] at hkey
  cases hkey

theorem cold_of_hot (hkey : hot.lookup key = some e) : cold.entries.lookup key = none :=
  (h.apart key).resolve_left fun hnone => by
    rw [hnone] at hkey
    cases hkey

theorem lookup_of_hot (hkey : hot.lookup key = some e) :
    ∃ r, T.lookup key = some r ∧ r.value = e.value ∧ r.firstSeen = e.firstSeen := by
  have hheld := h.held key
  rw [shelf, hkey] at hheld
  obtain ⟨r, hr, heq⟩ := map_eq_some_iff.mp hheld.symm
  exact ⟨r, hr, (mk.inj heq).1, (mk.inj heq).2⟩

theorem lookup_of_cold {v : List UInt8} {ts : ℕ} (hkey : cold.entries.lookup key = some (v, ts)) :
    ∃ r, T.lookup key = some r ∧ r.value = v ∧ coldFirstSeen.lookup key = some r.firstSeen := by
  obtain ⟨f, hf⟩ := h.stamped key _ hkey
  have hheld := h.held key
  rw [shelf, h.hot_of_cold hkey, InMemoryCold.get, hkey, hf] at hheld
  obtain ⟨r, hr, heq⟩ := map_eq_some_iff.mp hheld.symm
  exact ⟨r, hr, (mk.inj heq).1, (mk.inj heq).2.symm ▸ hf⟩

theorem hot_of_lookup_eq_none (hkey : T.lookup key = none) : hot.lookup key = none := by
  rcases hhot : hot.lookup key with _ | e
  · rfl
  · obtain ⟨r, hr, -⟩ := h.lookup_of_hot hhot
    rw [hkey] at hr
    cases hr

theorem cold_of_lookup_eq_none (hkey : T.lookup key = none) : cold.entries.lookup key = none := by
  rcases hcold : cold.entries.lookup key with _ | ⟨v, ts⟩
  · rfl
  · obtain ⟨r, hr, -⟩ := h.lookup_of_cold hcold
    rw [hkey] at hr
    cases hr

theorem mem_iff (k : NodeId) :
    k ∈ T ↔ k ∈ hot ∨ k ∈ cold.entries := by
  have hheld := congrArg isSome (h.held k)
  rw [shelf, isSome_map] at hheld
  rw [← lookup_isSome, ← lookup_isSome, ← lookup_isSome, ← hheld]
  rcases hot.lookup k with _ | e
  · simp [InMemoryCold.get]
  · simp

/-- A sum over the map is a sum over the tiers. -/
theorem sum_eq {f : NodeId → Record → ℕ}
    {g : NodeId → List UInt8 → ℕ} (hfg : ∀ k r, T.lookup k = some r → f k r = g k r.value) :
    T.sum f = hot.sum (fun k e => g k e.value) + cold.entries.sum fun k e => g k e.1 := by
  refine sum_add_sum h.apart h.mem_iff fun k => ?_
  rcases hhot : hot.lookup k with _ | e
  · rcases hcold : cold.entries.lookup k with _ | ⟨v, ts⟩
    · have hT : T.lookup k = none := lookup_eq_none.mpr fun hmem =>
        ((h.mem_iff k).mp hmem).elim (lookup_eq_none.mp hhot) (lookup_eq_none.mp hcold)
      rw [hT]
      rfl
    · obtain ⟨r, hr, rfl, -⟩ := h.lookup_of_cold hcold
      rw [hr, elim_none, elim_some, elim_some, zero_add, hfg k r hr]
  · obtain ⟨r, hr, hvalue, -⟩ := h.lookup_of_hot hhot
    rw [hr, h.cold_of_hot hhot, elim_some, elim_some, elim_none, add_zero,
      hfg k r hr, hvalue]

end

/-! ### What the moves do to the map -/

theorem shelf_congr {cold' : InMemoryCold} {coldFirstSeen' : Table NodeId ℕ} {k : NodeId}
    (hhot : hot'.lookup k = hot.lookup k) (hcold : cold'.entries.lookup k = cold.entries.lookup k)
    (hseen : coldFirstSeen'.lookup k = coldFirstSeen.lookup k) :
    shelf hot' cold' coldFirstSeen' k = shelf hot cold coldFirstSeen k := by
  rw [shelf, shelf, hhot, hseen, InMemoryCold.get, InMemoryCold.get, hcold]

section

variable (h : Shelved hot hotOrder cold coldFirstSeen T)

include h

/-- Keys leave the cold tier; their stamps may stay. -/
theorem shrinkCold {cold' : InMemoryCold}
    {gone : List NodeId} (hordered : cold'.Ordered) (hgone : ∀ k ∈ gone, hot.lookup k = none)
    (hlookup : ∀ k, cold'.entries.lookup k = (cold.entries.eraseAll gone).lookup k) :
    Shelved hot hotOrder cold' coldFirstSeen (T.eraseAll gone) where
  apart k := (h.apart k).imp_right fun hk => by
    rcases hcold : cold'.entries.lookup k with _ | e
    · rfl
    · rw [hlookup] at hcold
      rw [(lookup_of_lookup_eraseAll hcold).2] at hk
      cases hk
  hotOrdered := h.hotOrdered
  coldOrdered := hordered
  stamped k e hk := h.stamped k e (lookup_of_lookup_eraseAll (hlookup k ▸ hk)).2
  unstamped := h.unstamped
  held k := by
    by_cases hk : k ∈ gone
    · rw [lookup_eraseAll_of_mem hk, shelf, hgone k hk, InMemoryCold.get, hlookup,
        lookup_eraseAll_of_mem hk]
      rfl
    · rw [lookup_eraseAll_of_notMem hk, ← h.held k]
      exact shelf_congr rfl (by rw [hlookup, lookup_eraseAll_of_notMem hk]) rfl

/-- A key leaves the cold tier; its stamp may stay. -/
theorem removeCold (hkey : hot.lookup key = none) :
    Shelved hot hotOrder (cold.remove key) coldFirstSeen (T.erase key) := by
  change Shelved hot hotOrder (cold.remove key) coldFirstSeen (T.eraseAll [key])
  refine h.shrinkCold (h.coldOrdered.remove key) (fun k hk => ?_) fun k => ?_
  · rw [mem_singleton.mp hk, hkey]
  · rw [InMemoryCold.lookup_remove, ← lookup_erase_eq_ite]
    rfl

/-- A stamp goes whose key is not cold. -/
theorem forget (hkey : cold.entries.lookup key = none) :
    Shelved hot hotOrder cold (coldFirstSeen.erase key) T where
  apart := h.apart
  hotOrdered := h.hotOrdered
  coldOrdered := h.coldOrdered
  stamped k e hk := by
    rw [lookup_erase_ne (ne_of_lookup hk hkey)]
    exact h.stamped k e hk
  unstamped k e hk := by
    rw [lookup_erase_eq_ite, h.unstamped k e hk, ite_self]
  held k := by
    rw [← h.held k, shelf, shelf, InMemoryCold.get]
    rcases eq_or_ne k key with rfl | hne
    · rw [hkey]
      rfl
    · rw [lookup_erase_ne hne]

theorem forgetAll {keys : List NodeId} (hkeys : ∀ k ∈ keys, cold.entries.lookup k = none) :
    Shelved hot hotOrder cold (coldFirstSeen.eraseAll keys) T := by
  induction keys generalizing coldFirstSeen with
  | nil => exact h
  | cons key keys ih =>
    exact ih (h.forget (hkeys key mem_cons_self)) fun k hk => hkeys k (mem_cons_of_mem _ hk)

/-- A key leaves the hot tier. -/
theorem removeHot (hkey : hot.lookup key = some e) :
    Shelved (hot.erase key) (hotOrder.drop e.orderTs key) cold coldFirstSeen (T.erase key) where
  apart k := (h.apart k).imp_left fun hk => by rw [lookup_erase_eq_ite, hk, ite_self]
  hotOrdered := h.hotOrdered.drop (by rw [hkey]; rfl) fun k => by
    rw [lookup_erase_eq_ite, apply_ite (Option.map HotEntry.orderTs)]
    rfl
  coldOrdered := h.coldOrdered
  stamped := h.stamped
  unstamped k e' hk := h.unstamped k e' (lookup_erase_eq_some hk).2
  held k := by
    rw [lookup_erase_eq_ite]
    split
    next heq =>
      rw [heq, shelf, lookup_erase, InMemoryCold.get, h.cold_of_hot hkey]
      rfl
    next hne =>
      rw [← h.held k]
      exact shelf_congr (lookup_erase_ne hne) rfl rfl

/-- Several keys leave the hot tier. -/
theorem removeHots {l : List (NodeId × HotEntry)}
    (hnodup : (l.map Prod.fst).Nodup) (hl : ∀ e ∈ l, hot.lookup e.1 = some e.2) :
    Shelved (hot.eraseAll (l.map Prod.fst)) (l.foldl (fun o e => o.drop e.2.orderTs e.1) hotOrder)
      cold coldFirstSeen (T.eraseAll (l.map Prod.fst)) := by
  induction l generalizing hot hotOrder T with
  | nil => exact h
  | cons e l ih =>
    obtain ⟨hnot, hnodup⟩ := nodup_cons.mp hnodup
    refine ih (h.removeHot (hl e mem_cons_self)) hnodup fun e' he' => ?_
    have hne : e'.1 ≠ e.1 := fun heq => hnot (mem_map.mpr ⟨e', he', heq⟩)
    rw [lookup_erase_ne hne]
    exact hl e' (mem_cons_of_mem _ he')

/-- A new key enters the hot tier. -/
theorem insertHot (hkey : T.lookup key = none)
    (hseen : coldFirstSeen.lookup key = none) (r : Record) (ts : ℕ) :
    Shelved (hot.insert key ⟨r.value, ts, r.firstSeen⟩) (hotOrder.add ts key) cold coldFirstSeen
      (T.insert key r) where
  apart k := by
    rcases eq_or_ne k key with rfl | hne
    · exact .inr (h.cold_of_lookup_eq_none hkey)
    · rw [lookup_insert_ne hne]
      exact h.apart k
  hotOrdered := h.hotOrdered.add (by rw [h.hot_of_lookup_eq_none hkey]; rfl) fun k => by
    rw [lookup_insert_eq_ite, apply_ite (Option.map HotEntry.orderTs)]
    rfl
  coldOrdered := h.coldOrdered
  stamped := h.stamped
  unstamped k e hk := by
    rcases lookup_insert_eq_some hk with ⟨rfl, -⟩ | ⟨-, hk⟩
    · exact hseen
    · exact h.unstamped k e hk
  held k := by
    rw [lookup_insert_eq_ite]
    split
    next heq =>
      rw [heq, shelf, lookup_insert]
      rfl
    next hne =>
      rw [← h.held k]
      exact shelf_congr (lookup_insert_ne hne) rfl rfl

/-- A new key enters the cold tier, with its stamp. -/
theorem insertCold (hkey : T.lookup key = none) (r : Record) (ts : ℕ) :
    Shelved hot hotOrder (cold.insert key r.value ts) (coldFirstSeen.insert key r.firstSeen)
      (T.insert key r) where
  apart k := by
    rcases eq_or_ne k key with rfl | hne
    · exact .inl (h.hot_of_lookup_eq_none hkey)
    · rw [InMemoryCold.insert, lookup_insert_ne hne]
      exact h.apart k
  hotOrdered := h.hotOrdered
  coldOrdered := h.coldOrdered.insert (h.cold_of_lookup_eq_none hkey) r.value ts
  stamped k e hk := by
    rw [lookup_insert_eq_ite]
    split
    · exact ⟨_, rfl⟩
    next hne =>
      rw [InMemoryCold.insert, lookup_insert_ne hne] at hk
      exact h.stamped k e hk
  unstamped k e hk := by
    rw [lookup_insert_ne (ne_of_lookup hk (h.hot_of_lookup_eq_none hkey))]
    exact h.unstamped k e hk
  held k := by
    rw [lookup_insert_eq_ite]
    split
    next heq =>
      rw [heq, shelf, h.hot_of_lookup_eq_none hkey, InMemoryCold.get, InMemoryCold.insert,
        lookup_insert, lookup_insert]
      rfl
    next hne =>
      rw [← h.held k]
      refine shelf_congr rfl ?_ (lookup_insert_ne hne)
      rw [InMemoryCold.insert, lookup_insert_ne hne]

end

end Shelved

/-! ### What is charged to the origins -/

/-- The counts of the origins are the sums over a map of records, whose origins are on file. (The
origin of a key with no record may be on file as well: a value of no bytes leaves it behind.) -/
structure Charged (entryOrigin : Table NodeId NodeId) (originBytes : Table NodeId ℕ)
    (R : Records) : Prop where
  onFile : ∀ k r, R.lookup k = some r → entryOrigin.lookup k = some r.origin
  sums : ∀ o, (originBytes.lookup o).getD 0 = R.sum (Record.bytesOf o)

namespace TieredStore

variable {s : TieredStore} {T R : Records} {caps : Option ℕ × Option ℕ} {key k : NodeId}
  {r : Record} {bytes : ℕ}

theorem getD_lookup_debit (m : Table NodeId ℕ) (origin : NodeId) (bytes : ℕ) (o : NodeId) :
    ((debit m origin bytes).lookup o).getD 0 =
      if o = origin then (m.lookup o).getD 0 - bytes else (m.lookup o).getD 0 := by
  rw [debit]
  rcases hm : m.lookup origin with _ | slot
  · dsimp only
    split
    next heq =>
      rw [heq, hm]
      exact (Nat.zero_sub bytes).symm
    · rfl
  · dsimp only
    rcases eq_or_ne o origin with rfl | hne
    · rw [if_pos rfl, hm, getD_some]
      split
      next hzero => rw [lookup_erase, hzero, getD_none]
      · rw [lookup_insert, getD_some]
    · split
      · rw [lookup_erase_ne hne]
      · rw [lookup_insert_ne hne]

/-- A key that counts for nothing can be left out. -/
theorem charged_erase_of_zero {entryOrigin : Table NodeId NodeId} {originBytes : Table NodeId ℕ}
    (h : Charged entryOrigin originBytes R) (hzero : (R.lookup key).elim 0 (Record.bytes key) = 0) :
    Charged entryOrigin originBytes (R.erase key) where
  onFile k r hk := h.onFile k r (lookup_erase_eq_some hk).2
  sums o := by
    have hnone : (R.lookup key).elim 0 (Record.bytesOf o key) = 0 := by
      rcases hR : R.lookup key with _ | r
      · rfl
      · rw [hR] at hzero
        change (if r.origin = o then r.value.length else 0) = 0
        split
        · exact hzero
        · rfl
    rw [h.sums, sum_eq_add_erase _ R key, hnone, zero_add]

/-- `uncharge` takes a key off the counts. -/
theorem charged_uncharge (h : Charged s.entryOrigin s.originBytes R)
    (hbytes : bytes = (R.lookup key).elim 0 (Record.bytes key)) :
    Charged (s.uncharge key bytes).entryOrigin (s.uncharge key bytes).originBytes
      (R.erase key) := by
  rw [TieredStore.uncharge]
  rcases horigin : s.entryOrigin.lookup key with _ | origin
  · -- with no origin on file there is no record
    refine charged_erase_of_zero h ?_
    rcases hR : R.lookup key with _ | r
    · rfl
    · rw [h.onFile key r hR] at horigin
      cases horigin
  · constructor
    · intro k r hk
      obtain ⟨hne, hk⟩ := lookup_erase_eq_some hk
      exact (lookup_erase_ne hne).trans (h.onFile k r hk)
    · intro o
      rw [getD_lookup_debit, h.sums, sum_eq_add_erase _ R key, hbytes]
      rcases hR : R.lookup key with _ | r
      · rw [elim_none, elim_none, Nat.sub_zero, ite_self,
          zero_add]
      · have heq : origin = r.origin :=
          some.inj (horigin.symm.trans (h.onFile key r hR))
        rw [elim_some, elim_some, Record.bytes, Record.bytesOf, heq]
        rcases eq_or_ne o r.origin with rfl | hne
        · rw [if_pos rfl, if_pos rfl, Nat.add_sub_cancel_left]
        · rw [if_neg hne, if_neg (Ne.symm hne), zero_add]

theorem charged_charge (h : Charged s.entryOrigin s.originBytes R) (hkey : R.lookup key = none)
    (r : Record) :
    Charged (s.charge key r.origin r.value.length).entryOrigin
      (s.charge key r.origin r.value.length).originBytes (R.insert key r) where
  onFile k r' hk := by
    rcases lookup_insert_eq_some hk with ⟨rfl, rfl⟩ | ⟨hne, hk⟩
    · exact lookup_insert _
    · exact (lookup_insert_ne hne).trans (h.onFile k r' hk)
  sums o := by
    change (lookup o (s.originBytes.insert r.origin _)).getD 0 = _
    rw [sum_insert_of_lookup_eq_none _ hkey, ← h.sums o, Record.bytesOf]
    rcases eq_or_ne o r.origin with rfl | hne
    · rw [lookup_insert, if_pos rfl, getD_some, bytesOf, add_comm]
    · rw [lookup_insert_ne hne, if_neg (Ne.symm hne), zero_add]

/-! ### A store and its maps -/

/-- **What a store holds**: the map in its tiers, which the total counts, and the map charged to
the origins. The caps go along, since no operation changes them. -/
structure Holds (caps : Option ℕ × Option ℕ) (s : TieredStore) (T R : Records) : Prop where
  shelved : Shelved s.hot s.hotOrder s.cold s.coldFirstSeen T
  stamps : ∀ k, T.lookup k = none → s.coldFirstSeen.lookup k = none
  total : s.totalBytes = T.sum Record.bytes
  charged : Charged s.entryOrigin s.originBytes R
  sameCaps : (s.maxBytes, s.perOriginMaxBytes) = caps

theorem holds_new (hotCapacity coldCapacity : ℕ) (maxBytes perOriginMaxBytes : Option ℕ) :
    Holds (maxBytes, perOriginMaxBytes)
      (.new hotCapacity coldCapacity maxBytes perOriginMaxBytes) ∅ ∅ where
  shelved := Shelved.empty coldCapacity
  stamps _ _ := rfl
  total := rfl
  charged := ⟨nofun, fun _ => rfl⟩
  sameCaps := rfl

theorem Holds.maxBytes_eq (h : Holds caps s T R) : s.maxBytes = caps.1 :=
  congrArg fst h.sameCaps

theorem Holds.perOriginMaxBytes_eq (h : Holds caps s T R) : s.perOriginMaxBytes = caps.2 :=
  congrArg snd h.sameCaps

variable (s key bytes) in
theorem uncharge_eq :
    s.uncharge key bytes =
      { s with
        entryOrigin := (s.uncharge key bytes).entryOrigin
        originBytes := (s.uncharge key bytes).originBytes } := by
  rw [uncharge]
  split <;> rfl

/-- A key is charged to an origin, before it has entered a tier. -/
theorem Holds.charge (h : Holds caps s T R) (hkey : R.lookup key = none) (r : Record) :
    Holds caps (s.charge key r.origin r.value.length) T (R.insert key r) :=
  ⟨h.shelved, h.stamps, h.total, charged_charge h.charged hkey r, h.sameCaps⟩

/-- A key is taken off the counts, after it has left its tier and the total. -/
theorem holds_uncharge (hshelved : Shelved s.hot s.hotOrder s.cold s.coldFirstSeen T)
    (hstamps : ∀ k, T.lookup k = none → s.coldFirstSeen.lookup k = none)
    (htotal : s.totalBytes = T.sum Record.bytes) (hcharged : Charged s.entryOrigin s.originBytes R)
    (hbytes : bytes = (R.lookup key).elim 0 (Record.bytes key))
    (hcaps : (s.maxBytes, s.perOriginMaxBytes) = caps) :
    Holds caps (s.uncharge key bytes) T (R.erase key) := by
  have hcharged' := charged_uncharge hcharged hbytes
  rw [uncharge_eq] at hcharged' ⊢
  exact ⟨hshelved, hstamps, htotal, hcharged', hcaps⟩

theorem lookup_erase_eq_none_of_stamps {coldFirstSeen : Table NodeId ℕ}
    (hstamps : ∀ k, T.lookup k = none → coldFirstSeen.lookup k = none) (key : NodeId) :
    ∀ k, (T.erase key).lookup k = none → (coldFirstSeen.erase key).lookup k = none := by
  intro k hk
  rw [lookup_erase_eq_ite] at hk ⊢
  split
  · rfl
  next hne =>
    rw [if_neg hne] at hk
    exact hstamps k hk

/-- A key is taken out of both maps, after it has left its tier. -/
theorem holds_accountEviction
    (hshelved : Shelved s.hot s.hotOrder s.cold s.coldFirstSeen (T.erase key))
    (hstamps : ∀ k, T.lookup k = none → s.coldFirstSeen.lookup k = none)
    (htotal : s.totalBytes = T.sum Record.bytes) (hcharged : Charged s.entryOrigin s.originBytes R)
    (hcaps : (s.maxBytes, s.perOriginMaxBytes) = caps) (hT : T.lookup key = some r)
    (hR : R.lookup key = some r) :
    Holds caps (s.accountEviction key r.value.length) (T.erase key) (R.erase key) := by
  have hnone : (T.erase key).lookup key = none := lookup_erase key T
  refine holds_uncharge (hshelved.forget (hshelved.cold_of_lookup_eq_none hnone))
    (lookup_erase_eq_none_of_stamps hstamps key) ?_ hcharged (by rw [hR]; rfl) hcaps
  rw [htotal, sum_erase_of_lookup_eq_some _ hT, Record.bytes, Nat.add_sub_cancel_left]

end TieredStore

end VeilNetwork.Dht
