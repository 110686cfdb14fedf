import VeilNetwork.Dht.StoreSweep

/-!
# The byte counts of the store

Runs of the tiered store, with the origin of the last accepted put at each key recorded beside it.
In every run no key lies in both tiers, the total is the length of all that is stored, the count
of an origin is the length of what it put, and the cap of the origins is kept:
`Traced.store_accounting`.

The global cap is another matter. A put refunds the bytes of the value it replaces before it makes
room, but where that value lies in the cold tier the loop may evict it as well; its bytes are then
taken off twice, and the new value goes in past the cap (`Traced.put_exceeds_cap`). The cap is
kept in the runs in which no put makes room while it replaces a value in the cold tier.
-/

namespace VeilNetwork.Dht

open Table Option Function TieredStore

/-- The operations of the store. Each reading of the clock is an argument. -/
inductive StoreOp where
  | put (key : NodeId) (value : List UInt8) (now coldNow : ℕ)
  | putWithOriginAt (key : NodeId) (value : List UInt8) (origin : NodeId) (ts coldNow : ℕ)
  | putRestored (key : NodeId) (value : List UInt8) (origin : NodeId) (age now coldNow : ℕ)
  | get (key : NodeId) (now coldNow : ℕ)
  | getWithMeta (key : NodeId) (now coldNow : ℕ)
  | remove (key : NodeId)
  | retainFresh (now ttl : ℕ) (expired : List UInt8 → Bool)
  | retainFreshAgeOnly (now ttl : ℕ)

/-- A store, with the origin of the last put that was accepted at each key. -/
structure Traced where
  store : TieredStore
  author : NodeId → NodeId

namespace Traced

def new (hotCapacity coldCapacity : ℕ) (maxBytes perOriginMaxBytes : Option ℕ) : Traced :=
  ⟨.new hotCapacity coldCapacity maxBytes perOriginMaxBytes, fun _ => ORIGIN_INTERNAL⟩

variable (t : Traced)

/-- A put has been tried. -/
def tried (key origin : NodeId) (r : TieredStore × Bool) : Traced :=
  ⟨r.1, if r.2 then Function.update t.author key origin else t.author⟩

/-- One call. -/
def step : StoreOp → Traced
  | .put key value now coldNow =>
    t.tried key ORIGIN_INTERNAL (t.store.putWithOriginAt key value ORIGIN_INTERNAL now coldNow)
  | .putWithOriginAt key value origin ts coldNow =>
    t.tried key origin (t.store.putWithOriginAt key value origin ts coldNow)
  | .putRestored key value origin age now coldNow =>
    t.tried key origin (t.store.putRestored key value origin age now coldNow)
  | .get key now coldNow => { t with store := (t.store.get key now coldNow).1 }
  | .getWithMeta key now coldNow => { t with store := (t.store.getWithMeta key now coldNow).1 }
  | .remove key => { t with store := t.store.remove key }
  | .retainFresh now ttl expired =>
    { t with store := t.store.retainFreshInner now ttl (some expired) }
  | .retainFreshAgeOnly now ttl => { t with store := t.store.retainFreshInner now ttl none }

/-- The length of all that is stored. -/
def storedBytes : ℕ :=
  t.store.hot.sum (fun _ e => e.value.length) + t.store.cold.entries.sum fun _ e => e.1.length

/-- The length of what is stored under the keys whose value an origin put. -/
def storedBytesOf (origin : NodeId) : ℕ :=
  t.store.hot.sum (fun k e => if t.author k = origin then e.value.length else 0) +
    t.store.cold.entries.sum fun k e => if t.author k = origin then e.1.length else 0

/-- No put makes room while the value it replaces lies in the cold tier. -/
def Roomy (t : Traced) : StoreOp → Prop
  | .put key value _ _ => t.store.Roomy key value.length
  | .putWithOriginAt key value _ _ _ => t.store.Roomy key value.length
  | .putRestored key value _ _ _ _ => t.store.Roomy key value.length
  | _ => True

instance decidableRoomyStore (s : TieredStore) (key : NodeId) (newBytes : ℕ) :
    Decidable (s.Roomy key newBytes) :=
  inferInstanceAs (Decidable (_ = true → _ = false))

instance decidableRoomy (t : Traced) (op : StoreOp) : Decidable (t.Roomy op) := by
  cases op <;> unfold Roomy <;> infer_instance

/-! ### Every run -/

variable (caps : Option ℕ × Option ℕ)

/-- The store holds a map of records under their authors, within the cap of the origins. -/
def Good (t : Traced) : Prop :=
  ∃ X, t.store.Holds caps X X ∧ (∀ k r, X.lookup k = some r → r.origin = t.author k) ∧
    ∀ cap, caps.2 = some cap → ∀ o, o ≠ ORIGIN_INTERNAL → X.sum (Record.bytesOf o) ≤ cap

/-- The store is within its own cap. -/
def Fits (t : Traced) : Prop :=
  ∀ cap, caps.1 = some cap → t.store.totalBytes ≤ cap

variable {caps : Option ℕ × Option ℕ} {t : Traced} {X Y : Records} {s : TieredStore}

/-- Where records only go, both are kept. -/
theorem Good.shrink (h : Good caps t)
    (hs : ∀ X, t.store.Holds caps X X →
      ∃ Y, s.Holds caps Y Y ∧ ∀ k r, Y.lookup k = some r → X.lookup k = some r) :
    Good caps { t with store := s } ∧ (Fits caps t → Fits caps { t with store := s }) := by
  obtain ⟨X, hX, hauthor, hcap⟩ := h
  obtain ⟨Y, hY, hsub⟩ := hs X hX
  refine ⟨⟨Y, hY, fun k r hk => hauthor k r (hsub k r hk), fun cap hc o ho => ?_⟩,
    fun hfits cap hc => ?_⟩
  · exact (sum_le_of_lookup _ hsub).trans (hcap cap hc o ho)
  · have hle := sum_le_of_lookup Record.bytes hsub
    rw [← hX.total, ← hY.total] at hle
    exact hle.trans (hfits cap hc)

/-- What an accepted put leaves of the cap of the origins. -/
theorem sum_bytesOf_le (hX : s.Holds caps X X) {key origin : NodeId} {value : List UInt8} {ts : ℕ}
    (hentered : TieredStore.Entered X Y key ⟨value, origin, ts⟩)
    (horigin : s.exceedsOrigin key value.length origin = false) {cap : ℕ}
    (hcap : caps.2 = some cap) {o : NodeId} (ho : o ≠ ORIGIN_INTERNAL)
    (hle : X.sum (Record.bytesOf o) ≤ cap) : Y.sum (Record.bytesOf o) ≤ cap := by
  have hrest : sum (Record.bytesOf o) (Y.erase key) ≤
      sum (Record.bytesOf o) (X.erase key) :=
    sum_le_of_lookup _ fun k r hk => by
      obtain ⟨hne, hk⟩ := lookup_erase_eq_some hk
      rw [AList.lookup_erase_ne hne]
      exact hentered.old k r hne hk
  have hX' := sum_eq_add_erase (Record.bytesOf o) X key
  rw [sum_erase_of_lookup_eq_some _ hentered.new, Record.bytesOf]
  rcases eq_or_ne origin o with rfl | hne
  · -- the bytes the check refunds are those of this origin at this key
    have hexisting : (if s.entryOrigin.lookup key = some origin then s.valueBytes key else 0) =
        (X.lookup key).elim 0 (Record.bytesOf origin key) := by
      rw [valueBytes_eq hX.shelved key]
      rcases hkey : X.lookup key with _ | r
      · exact ite_self _
      · rw [hX.charged.onFile key r hkey]
        simp only [some_inj]
        rfl
    rw [exceedsOrigin, hX.perOriginMaxBytes_eq, hcap] at horigin
    simp only [hexisting, decide_eq_false_iff_not, not_and, not_lt] at horigin
    have hfits := horigin ho
    rw [bytesOf, hX.charged.sums, hX', Nat.add_sub_cancel_left] at hfits
    rw [if_pos rfl]
    change value.length + _ ≤ cap
    omega
  · rw [if_neg hne]
    omega

/-- A put keeps the run good, and the cap if it is roomy. -/
theorem Good.tried (h : Good caps t) (key : NodeId) (value : List UInt8) (origin : NodeId)
    (ts coldNow : ℕ) :
    Good caps (t.tried key origin (t.store.putWithOriginAt key value origin ts coldNow)) ∧
      (t.store.Roomy key value.length → Fits caps t →
        Fits caps (t.tried key origin (t.store.putWithOriginAt key value origin ts coldNow))) := by
  obtain ⟨X, hX, hauthor, hcap⟩ := h
  rcases hX.putWithOriginAt key value origin ts coldNow with
    heq | ⟨s', Y, heq, hY, hentered, horigin, hroomy⟩
  · rw [heq]
    exact ⟨⟨X, hX, hauthor, hcap⟩, fun _ hfits => hfits⟩
  · rw [heq]
    refine ⟨⟨Y, hY, fun k r hk => ?_, fun cap hc o ho => ?_⟩, fun hroom _ cap hc => ?_⟩
    · change r.origin = update t.author key origin k
      rcases eq_or_ne k key with rfl | hne
      · rw [hentered.new] at hk
        rw [update_self, ← some.inj hk]
      · rw [update_of_ne hne]
        exact hauthor k r (hentered.old k r hne hk)
    · exact sum_bytesOf_le hX hentered horigin hc ho (hcap cap hc o ho)
    · exact hY.total.trans_le (hroomy hroom cap hc)

/-- **What a step keeps.** -/
theorem Good.step (h : Good caps t) (op : StoreOp) :
    Good caps (t.step op) ∧ (t.Roomy op → Fits caps t → Fits caps (t.step op)) := by
  -- a read is a promotion
  have hread : ∀ key now coldNow,
      Good caps { t with store := t.store.promote key now coldNow } ∧
        (Fits caps t → Fits caps { t with store := t.store.promote key now coldNow }) := by
    intro key now coldNow
    refine h.shrink fun X hX => ?_
    obtain ⟨gone, -, hgone⟩ := hX.promote key now coldNow
    exact ⟨_, hgone, fun k r hk => (lookup_of_lookup_eraseAll hk).2⟩
  have hsweep : ∀ now ttl expired,
      Good caps { t with store := t.store.retainFreshInner now ttl expired } ∧
        (Fits caps t → Fits caps { t with store := t.store.retainFreshInner now ttl expired }) := by
    intro now ttl expired
    refine h.shrink fun X hX => ?_
    obtain ⟨Y, hY, hyoung⟩ := hX.retainFreshInner now ttl expired
    exact ⟨Y, hY, fun k r hk => (hyoung k r hk).1⟩
  cases op with
  | put key value => exact h.tried key value ORIGIN_INTERNAL ..
  | putWithOriginAt => exact h.tried ..
  | putRestored => exact h.tried ..
  | get key now coldNow | getWithMeta key now coldNow =>
    exact (hread key now coldNow).imp_right fun hfits _ => hfits
  | remove key =>
    refine (h.shrink fun X hX => ?_).imp_right fun hfits _ => hfits
    exact ⟨_, hX.remove key, fun k r hk => (lookup_erase_eq_some hk).2⟩
  | retainFresh now ttl expired =>
    exact (hsweep now ttl (some expired)).imp_right fun hfits _ => hfits
  | retainFreshAgeOnly now ttl => exact (hsweep now ttl none).imp_right fun hfits _ => hfits

variable (hotCapacity coldCapacity : ℕ) (maxBytes perOriginMaxBytes : Option ℕ)

theorem good_new :
    Good (maxBytes, perOriginMaxBytes) (new hotCapacity coldCapacity maxBytes perOriginMaxBytes) :=
  ⟨∅, holds_new .., nofun, fun _ _ _ _ => Nat.zero_le _⟩

/-- **The byte counts are exact in every run**, no key lies in both tiers, the cap of the origins is
kept and a refused put changes nothing; the cap of the store is kept in every run whose puts are
all roomy. -/
theorem store_accounting (ops : List StoreOp) (t : Traced)
    (ht : t = ops.foldl step (new hotCapacity coldCapacity maxBytes perOriginMaxBytes)) :
    (∀ k, t.store.hot.lookup k = none ∨ t.store.cold.entries.lookup k = none) ∧
      t.store.totalBytes = t.storedBytes ∧
      (∀ o, t.store.bytesOf o = t.storedBytesOf o) ∧
      (∀ cap, perOriginMaxBytes = some cap →
        ∀ o, o ≠ ORIGIN_INTERNAL → t.store.bytesOf o ≤ cap) ∧
      (∀ key value origin ts coldNow,
        (t.store.putWithOriginAt key value origin ts coldNow).2 = false →
          (t.store.putWithOriginAt key value origin ts coldNow).1 = t.store) ∧
      (Run.Along step Roomy (new hotCapacity coldCapacity maxBytes perOriginMaxBytes) ops →
        ∀ cap, maxBytes = some cap → t.store.totalBytes ≤ cap) := by
  have hnew := good_new hotCapacity coldCapacity maxBytes perOriginMaxBytes
  obtain ⟨X, hX, hauthor, hcap⟩ : Good (maxBytes, perOriginMaxBytes) t :=
    ht ▸ Run.invariant (P := Good (maxBytes, perOriginMaxBytes))
      (fun _ op h => (Good.step h op).1) hnew ops
  refine ⟨hX.shelved.apart, ?_, fun o => ?_, fun cap hc o ho => ?_, ?_, fun hroomy => ?_⟩
  · exact hX.total.trans (hX.shelved.sum_eq (g := fun _ v => v.length) fun _ _ _ => rfl)
  · refine (hX.charged.sums o).trans (hX.shelved.sum_eq
      (g := fun k v => if t.author k = o then v.length else 0) fun k r hk => ?_)
    rw [Record.bytesOf, hauthor k r hk]
  · exact (hX.charged.sums o).trans_le (hcap cap hc o ho)
  · intro key value origin ts coldNow hrefused
    rcases hX.putWithOriginAt key value origin ts coldNow with heq | ⟨s', Y, heq, -⟩
    · rw [heq]
    · rw [heq] at hrefused
      cases hrefused
  · have hrun := Run.invariant_along (P := fun t => Good (maxBytes, perOriginMaxBytes) t ∧
      Fits (maxBytes, perOriginMaxBytes) t) (fun _ op hroom h =>
        ⟨(Good.step h.1 op).1, (Good.step h.1 op).2 hroom h.2⟩)
      ⟨hnew, fun _ _ => Nat.zero_le _⟩ hroomy
    exact ht ▸ hrun.2

/-! ### A put past the cap -/

/-- A hot tier of one entry and a cap of ten bytes; a value of five bytes goes cold, and is replaced
by one of six. -/
def replaceCold : List StoreOp :=
  [.put (FixedBytes.replicate 32 1) (List.replicate 5 0) 0 0,
    .put (FixedBytes.replicate 32 2) (List.replicate 5 0) 1 1,
    .put (FixedBytes.replicate 32 1) (List.replicate 6 0) 2 2]

/-- The loop evicts the value that is being replaced, its bytes are refunded all the same, and the
store ends with eleven bytes under a cap of ten. -/
theorem put_exceeds_cap :
    (replaceCold.foldl step (new 1 2 (some 10) none)).store.totalBytes = 11 ∧
      (replaceCold.foldl step (new 1 2 (some 10) none)).storedBytes = 11 ∧
      (replaceCold.foldl step (new 1 2 (some 10) none)).store.maxBytes = some 10 := by
  decide +kernel

/-- A run that stays within the cap: the second put makes room by evicting the first value. -/
def evictOther : List StoreOp :=
  [.putWithOriginAt (FixedBytes.replicate 32 1) (List.replicate 5 0)
      (FixedBytes.replicate 32 9) 0 0,
    .put (FixedBytes.replicate 32 2) (List.replicate 4 0) 1 1,
    .put (FixedBytes.replicate 32 3) (List.replicate 6 0) 2 2]

theorem store_accounting_evictOther : ∃ t : Traced,
    t = evictOther.foldl step (new 1 2 (some 10) (some 5)) ∧ t.store.totalBytes = t.storedBytes ∧
      t.store.totalBytes ≤ 10 ∧ t.store.bytesOf (FixedBytes.replicate 32 9) = 0 := by
  obtain ⟨-, htotal, -, -, -, hcap⟩ :=
    store_accounting 1 2 (some 10) (some 5) evictOther _ rfl
  exact ⟨_, rfl, htotal, hcap (by decide +kernel) 10 rfl, by decide +kernel⟩

/-! ### Reads -/

theorem getNoPromote_eq (h : s.Holds caps X X) (key : NodeId) :
    s.getNoPromote key = (X.lookup key).map Record.value := by
  have hheld := congrArg (Option.map Prod.fst) (h.shelved.held key)
  rw [Option.map_map, shelf] at hheld
  rw [getNoPromote]
  refine Eq.trans ?_ hheld
  rcases s.hot.lookup key with _ | e
  · rw [Option.map_map]
    exact Option.map_id'.symm
  · rfl

/-- A read finds what is there, in whichever tier it lies, and leaves it there. -/
theorem lookup_hot_promote (s : TieredStore) (key : NodeId) (now coldNow : ℕ) :
    ((s.promote key now coldNow).hot.lookup key).map HotEntry.value = s.getNoPromote key ∧
      (s.promote key now coldNow).getNoPromote key = s.getNoPromote key := by
  rw [promote]
  rcases hhot : s.hot.lookup key with _ | e
  · rcases hcold : s.cold.get key with _ | value
    · simp [getNoPromote, hhot, hcold]
    · simp [getNoPromote, hhot, hcold, insertHot]
  · simp [getNoPromote, hhot]

/-- The key and the value of a put. -/
def written : StoreOp → Option (NodeId × List UInt8)
  | .put key value _ _ | .putWithOriginAt key value _ _ _ | .putRestored key value _ _ _ _ =>
    some (key, value)
  | _ => none

/-- No operation makes up a record: what is there after it was there before or is what it put. -/
theorem records_step (hX : t.store.Holds caps X X) (op : StoreOp) :
    ∃ Y, (t.step op).store.Holds caps Y Y ∧ ∀ k r, Y.lookup k = some r →
      X.lookup k = some r ∨ written op = some (k, r.value) := by
  have hput (key : NodeId) (value : List UInt8) (origin : NodeId) (ts coldNow : ℕ) :
      ∃ Y, (t.store.putWithOriginAt key value origin ts coldNow).1.Holds caps Y Y ∧
        ∀ k r, Y.lookup k = some r →
          X.lookup k = some r ∨ some (key, value) = some (k, r.value) := by
    rcases hX.putWithOriginAt key value origin ts coldNow with heq | ⟨s', Y, heq, hY, hentered, -⟩
    · exact ⟨X, heq.symm ▸ hX, fun k r => .inl⟩
    · refine ⟨Y, heq.symm ▸ hY, fun k r hk => ?_⟩
      rcases eq_or_ne k key with rfl | hne
      · rw [hentered.new] at hk
        cases hk
        exact .inr rfl
      · exact .inl (hentered.old k r hne hk)
  cases op with
  | put | putWithOriginAt | putRestored => exact hput ..
  | get key now coldNow | getWithMeta key now coldNow =>
    obtain ⟨gone, -, hgone⟩ := hX.promote key now coldNow
    exact ⟨_, hgone, fun k r hk => .inl (lookup_of_lookup_eraseAll hk).2⟩
  | remove key => exact ⟨_, hX.remove key, fun k r hk => .inl (lookup_erase_eq_some hk).2⟩
  | retainFresh now ttl expired =>
    obtain ⟨Y, hY, hyoung⟩ := hX.retainFreshInner now ttl (some expired)
    exact ⟨Y, hY, fun k r hk => .inl (hyoung k r hk).1⟩
  | retainFreshAgeOnly now ttl =>
    obtain ⟨Y, hY, hyoung⟩ := hX.retainFreshInner now ttl none
    exact ⟨Y, hY, fun k r hk => .inl (hyoung k r hk).1⟩

/-- **The two tiers read as one map**, in every run: the reads that promote return what the one
that does not finds, and leave it there; an accepted put is found, a removed key is not; and no
operation makes up a value or alters one. -/
theorem tiers_read_as_one_map (ops : List StoreOp) (key : NodeId) :
    let t := ops.foldl step (new hotCapacity coldCapacity maxBytes perOriginMaxBytes)
    (∀ now coldNow, (t.store.get key now coldNow).2 = t.store.getNoPromote key ∧
      (t.store.getWithMeta key now coldNow).2.map Prod.fst = t.store.getNoPromote key ∧
      (t.store.get key now coldNow).1.getNoPromote key = t.store.getNoPromote key) ∧
    (∀ value origin ts coldNow,
      (t.store.putWithOriginAt key value origin ts coldNow).2 = true →
      (t.store.putWithOriginAt key value origin ts coldNow).1.getNoPromote key = some value) ∧
    (∀ k, (t.store.remove key).getNoPromote k =
      if k = key then none else t.store.getNoPromote k) ∧
    ∀ op v, (t.step op).store.getNoPromote key = some v →
      t.store.getNoPromote key = some v ∨ written op = some (key, v) := by
  intro t
  obtain ⟨X, hX, -⟩ : Good (maxBytes, perOriginMaxBytes) t :=
    Run.invariant (P := Good _) (fun _ op h => (Good.step h op).1) (good_new ..) ops
  refine ⟨fun now coldNow => ?_, ?_, fun k => ?_, fun op v hv => ?_⟩
  · obtain ⟨hread, hleft⟩ := lookup_hot_promote t.store key now coldNow
    exact ⟨hread, by simpa [getWithMeta, Function.comp_def] using hread, hleft⟩
  · intro value origin ts coldNow haccepted
    rcases hX.putWithOriginAt key value origin ts coldNow with heq | ⟨s', Y, heq, hY, hentered, -⟩
    · rw [heq] at haccepted
      cases haccepted
    · rw [heq, getNoPromote_eq hY, hentered.new]
      rfl
  · rw [getNoPromote_eq (hX.remove key), getNoPromote_eq hX, lookup_erase_eq_ite]
    split <;> rfl
  · obtain ⟨Y, hY, hfrom⟩ := records_step hX op
    rw [getNoPromote_eq hY] at hv
    obtain ⟨r, hr, rfl⟩ := map_eq_some_iff.mp hv
    refine (hfrom key r hr).imp_left fun hold => ?_
    rw [getNoPromote_eq hX, hold]
    rfl

end Traced

end VeilNetwork.Dht
