import VeilNetwork.Dht.StoreSweep

/-!
# The lifetimes of the records

A record should live for the time its publisher asked for, wherever it lies and however often the
node restarts. Here the store runs on one clock, and beside it stands what a record's life was: when
it was put, how many restarts it went through, and the time it spent in snapshots. A restart fills a
fresh store from a snapshot of the old one; the ages in a snapshot are cut to whole seconds, and the
time between the snapshot and the restore is not part of any age.

A record's own stamp goes with it through both tiers. But the snapshot takes the age of a cold
record from the time of its demotion instead (`Aging.demoted_record_outlives_ttl`). A record that
was hot at each of its restarts keeps its age up to a second for each:
`Aging.records_keep_their_age`.
-/

namespace VeilNetwork.Dht

open TieredStore List Option Table

/-- What a record went through since its last put. -/
structure Life where
  putAt : ℕ
  restarts : ℕ
  /-- The time between the snapshots and their restores. -/
  down : ℕ
  /-- Some snapshot found it in the cold tier. -/
  fromCold : Bool

/-- The latest stamp a record should have. -/
def Life.latest (l : Life) : ℕ := l.putAt + l.restarts * NANOS + l.down

/-- Some order of a list, as an iteration over a hash map comes in some order; with times, which the
cold tier reads. -/
def Shuffle (α : Type) : Type :=
  { f : List α → List (α × ℕ) // ∀ l, ((f l).map Prod.fst).Perm l }

/-- What happens to a store. The cold tier reads the clock a `delay` after the operation began; a
put may be stamped `back` from its time; a restart may change the capacities and caps, and restores
the snapshot after a `gap`. -/
inductive LifeOp where
  | putWithOriginAt (key : NodeId) (value : List UInt8) (origin : NodeId) (back delay : ℕ)
  | get (key : NodeId) (delay : ℕ)
  | getWithMeta (key : NodeId) (delay : ℕ)
  | remove (key : NodeId)
  | retainFresh (ttl : ℕ) (expired : Option (List UInt8 → Bool))
  | restart (hotCapacity coldCapacity : ℕ) (maxBytes perOriginMaxBytes : Option ℕ) (gap : ℕ)
      (order : Shuffle DhtValueSnapshot)

/-- A store on a clock, with the lives of the records. -/
structure Aging where
  store : TieredStore
  clock : ℕ
  life : NodeId → Life

namespace Aging

def new (hotCapacity coldCapacity : ℕ) (maxBytes perOriginMaxBytes : Option ℕ) : Aging :=
  ⟨.new hotCapacity coldCapacity maxBytes perOriginMaxBytes, 0, fun _ => ⟨0, 0, 0, false⟩⟩

/-- A life goes through a restart. -/
def restarted (a : Aging) (gap : ℕ) (key : NodeId) : Life :=
  let l := a.life key
  ⟨l.putAt, l.restarts + 1, l.down + gap, l.fromCold || a.store.cold.contains key⟩

/-- An operation, some time after the one before. -/
def step (a : Aging) (event : ℕ × LifeOp) : Aging :=
  let now := a.clock + event.1
  match event.2 with
  | .putWithOriginAt key value origin back delay =>
    let r := a.store.putWithOriginAt key value origin (now - back) (now + delay)
    ⟨r.1, now + delay, if r.2 then Function.update a.life key ⟨now, 0, 0, false⟩ else a.life⟩
  | .get key delay => ⟨(a.store.get key now (now + delay)).1, now + delay, a.life⟩
  | .getWithMeta key delay => ⟨(a.store.getWithMeta key now (now + delay)).1, now + delay, a.life⟩
  | .remove key => ⟨a.store.remove key, now, a.life⟩
  | .retainFresh ttl expired => ⟨a.store.retainFreshInner now ttl expired, now, a.life⟩
  | .restart hotCapacity coldCapacity maxBytes perOriginMaxBytes gap order =>
    ⟨(TieredStore.new hotCapacity coldCapacity maxBytes perOriginMaxBytes).restoreValues
      (order.1 (a.store.snapshotValues now)) (now + gap), now + gap, a.restarted gap⟩

/-! ### What a snapshot gives back -/

/-- The record that an entry of a snapshot is restored to. -/
def restoredRecord (now : ℕ) (e : DhtValueSnapshot) : Record :=
  ⟨e.value, e.origin, if e.ageSecs * NANOS ≤ now then now - e.ageSecs * NANOS else now⟩

variable {s : TieredStore}

/-- **A restore** holds records of the snapshot, and those that were there before. -/
theorem holds_restoreValues {caps : Option ℕ × Option ℕ} {X : Records}
    (h : s.Holds caps X X) (entries : List (DhtValueSnapshot × ℕ)) (now : ℕ) :
    ∃ Y, (s.restoreValues entries now).Holds caps Y Y ∧
      ∀ k r, Y.lookup k = some r → X.lookup k = some r ∨
        ∃ e ∈ entries.map Prod.fst, e.key = k ∧ r = restoredRecord now e := by
  induction entries generalizing s X with
  | nil => exact ⟨X, h, fun k r hk => .inl hk⟩
  | cons e entries ih =>
    -- one entry: nothing changes, or its record is entered
    have hone : ∃ Y, (restoreValue now s e).Holds caps Y Y ∧
        ∀ k r, Y.lookup k = some r → X.lookup k = some r ∨
          (e.1.key = k ∧ r = restoredRecord now e.1) := by
      rw [restoreValue]
      split
      · exact ⟨X, h, fun k r hk => .inl hk⟩
      · rcases h.putWithOriginAt e.1.key e.1.value e.1.origin
          (if e.1.ageSecs * NANOS ≤ now then now - e.1.ageSecs * NANOS else now) e.2 with
          heq | ⟨s', Y, heq, hY, hentered, -⟩
        · rw [putRestored, heq]
          exact ⟨X, h, fun k r hk => .inl hk⟩
        · rw [putRestored, heq]
          refine ⟨Y, hY, fun k r hk => ?_⟩
          rcases eq_or_ne k e.1.key with rfl | hne
          · rw [hentered.new] at hk
            exact .inr ⟨rfl, (some.inj hk).symm⟩
          · exact .inl (hentered.old k r hne hk)
    obtain ⟨Y, hY, hfrom⟩ := hone
    obtain ⟨Z, hZ, hfrom'⟩ := ih hY
    refine ⟨Z, hZ, fun k r hk => ?_⟩
    rcases hfrom' k r hk with hk | ⟨e', he', hkey, hr⟩
    · rcases hfrom k r hk with hk | ⟨hkey, hr⟩
      · exact .inl hk
      · exact .inr ⟨e.1, mem_cons_self, hkey, hr⟩
    · exact .inr ⟨e', mem_cons_of_mem _ he', hkey, hr⟩

/-- An entry of a snapshot is a hot entry with its age, or stands for a cold one. -/
theorem mem_snapshotValues {now : ℕ} {e : DhtValueSnapshot} (h : e ∈ s.snapshotValues now) :
    (∃ entry, s.hot.lookup e.key = some entry ∧ e.ageSecs = (now - entry.firstSeen) / NANOS) ∨
      s.cold.contains e.key = true := by
  obtain ⟨stored, hstored, rfl⟩ := mem_map.mp h
  rcases mem_append.mp hstored with hhot | hcold
  · obtain ⟨entry, hentry, rfl⟩ := mem_map.mp hhot
    exact .inl ⟨entry.2, lookup_eq_some_iff.mpr hentry, rfl⟩
  · obtain ⟨cold, hmem, rfl⟩ := mem_map.mp hcold
    obtain ⟨entry, hentry, rfl⟩ := mem_map.mp hmem
    refine .inr ?_
    rw [InMemoryCold.contains, lookup_eq_some_iff.mpr hentry]
    rfl

/-- Cutting an age to whole seconds moves a stamp by less than a second. -/
theorem restored_le {now firstSeen : ℕ} (gap : ℕ) (h : firstSeen ≤ now) :
    (if (now - firstSeen) / NANOS * NANOS ≤ now + gap then
      now + gap - (now - firstSeen) / NANOS * NANOS else now + gap) ≤ firstSeen + NANOS + gap := by
  have hcut := Nat.div_add_mod (now - firstSeen) NANOS
  have hmod : (now - firstSeen) % NANOS < NANOS := Nat.mod_lt _ (by decide)
  rw [mul_comm] at hcut
  rw [if_pos (by omega)]
  omega

/-! ### Every run -/

/-- Stamps are past, and those of records that no snapshot found cold are early enough. -/
def Dated (a : Aging) : Prop :=
  ∃ caps X, a.store.Holds caps X X ∧ ∀ k r, X.lookup k = some r →
    r.firstSeen ≤ a.clock ∧ ((a.life k).fromCold = false → r.firstSeen ≤ (a.life k).latest)

variable {a : Aging}

/-- Where records only go, stamps stay as they are. -/
theorem Dated.shrink (h : a.Dated) {clock : ℕ} (hclock : a.clock ≤ clock)
    (hs : ∀ caps X, a.store.Holds caps X X → ∃ Y, s.Holds caps Y Y ∧
      ∀ k r, Y.lookup k = some r → X.lookup k = some r) : Dated ⟨s, clock, a.life⟩ := by
  obtain ⟨caps, X, hX, hdated⟩ := h
  obtain ⟨Y, hY, hsub⟩ := hs caps X hX
  refine ⟨caps, Y, hY, fun k r hk => ?_⟩
  obtain ⟨hpast, hlatest⟩ := hdated k r (hsub k r hk)
  exact ⟨hpast.trans hclock, hlatest⟩

/-- A read is a promotion. -/
theorem Dated.promote (h : a.Dated) (key : NodeId) (now coldNow : ℕ) {clock : ℕ}
    (hclock : a.clock ≤ clock) : Dated ⟨a.store.promote key now coldNow, clock, a.life⟩ := by
  refine h.shrink hclock fun caps X hX => ?_
  obtain ⟨gone, -, hgone⟩ := hX.promote key now coldNow
  exact ⟨_, hgone, fun k r hk => (lookup_of_lookup_eraseAll hk).2⟩

theorem Dated.putWithOriginAt (h : a.Dated) (elapsed : ℕ) (key : NodeId) (value : List UInt8)
    (origin : NodeId) (back delay : ℕ) :
    (a.step (elapsed, .putWithOriginAt key value origin back delay)).Dated := by
  obtain ⟨caps, X, hX, hdated⟩ := h
  have hold : ∀ k r, X.lookup k = some r → r.firstSeen ≤ a.clock + elapsed + delay ∧
      ((a.life k).fromCold = false → r.firstSeen ≤ (a.life k).latest) := fun k r hk =>
    ⟨(hdated k r hk).1.trans (by omega), (hdated k r hk).2⟩
  rw [step]
  rcases hX.putWithOriginAt key value origin (a.clock + elapsed - back)
    (a.clock + elapsed + delay) with heq | ⟨s', Y, heq, hY, hentered, -⟩
  · simp only [heq]
    exact ⟨caps, X, hX, hold⟩
  · simp only [heq, if_true]
    refine ⟨caps, Y, hY, fun k r hk => ?_⟩
    dsimp only
    rcases eq_or_ne k key with rfl | hne
    · rw [hentered.new] at hk
      rw [← some.inj hk]
      refine ⟨(Nat.sub_le _ _).trans (Nat.le_add_right _ _), fun _ => ?_⟩
      rw [Function.update_self]
      change a.clock + elapsed - back ≤ a.clock + elapsed + 0 * NANOS + 0
      omega
    · rw [Function.update_of_ne hne]
      exact hold k r (hentered.old k r hne hk)

/-- A restart cuts the ages of the hot records to whole seconds. -/
theorem Dated.restart (h : a.Dated) (elapsed hotCapacity coldCapacity : ℕ)
    (maxBytes perOriginMaxBytes : Option ℕ) (gap : ℕ) (order : Shuffle DhtValueSnapshot) :
    (a.step (elapsed, .restart hotCapacity coldCapacity maxBytes perOriginMaxBytes gap
      order)).Dated := by
  obtain ⟨caps, X, hX, hdated⟩ := h
  obtain ⟨Y, hY, hfrom⟩ := holds_restoreValues
    (holds_new hotCapacity coldCapacity maxBytes perOriginMaxBytes)
    (order.1 (a.store.snapshotValues (a.clock + elapsed))) (a.clock + elapsed + gap)
  refine ⟨_, Y, hY, fun k r hk => ?_⟩
  rcases hfrom k r hk with hk | ⟨e, he, rfl, rfl⟩
  · cases hk
  refine ⟨?_, fun hwarm => ?_⟩
  · change (if _ ≤ _ then _ else _) ≤ a.clock + elapsed + gap
    split
    · exact Nat.sub_le _ _
    · exact le_refl _
  · obtain ⟨hlife, hcold⟩ := Bool.or_eq_false_iff.mp hwarm
    rcases mem_snapshotValues ((order.2 _).mem_iff.mp he) with ⟨entry, hentry, hage⟩ | hin
    · obtain ⟨r, hr, -, hfirst⟩ := hX.shelved.lookup_of_hot hentry
      obtain ⟨hpast, hlatest⟩ := hdated e.key r hr
      have hcut := restored_le gap (hpast.trans (Nat.le_add_right a.clock elapsed))
      have hbound := hlatest hlife
      change (if e.ageSecs * NANOS ≤ _ then _ else _) ≤
        (a.life e.key).putAt + ((a.life e.key).restarts + 1) * NANOS + ((a.life e.key).down + gap)
      rw [Life.latest] at hbound
      rw [hage, ← hfirst, add_mul]
      omega
    · rw [hcold] at hin
      cases hin

/-- **What a step keeps.** -/
theorem Dated.step (h : a.Dated) (event : ℕ × LifeOp) : (a.step event).Dated := by
  obtain ⟨elapsed, op⟩ := event
  cases op with
  | putWithOriginAt key value origin back delay =>
    exact h.putWithOriginAt elapsed key value origin back delay
  | get key | getWithMeta key => exact h.promote key _ _ (by omega)
  | remove key =>
    refine h.shrink (Nat.le_add_right _ _) fun caps X hX => ?_
    exact ⟨_, hX.remove key, fun k r hk => (lookup_erase_eq_some hk).2⟩
  | retainFresh ttl expired =>
    refine h.shrink (Nat.le_add_right _ _) fun caps X hX => ?_
    obtain ⟨Y, hY, hyoung⟩ := hX.retainFreshInner (a.clock + elapsed) ttl expired
    exact ⟨Y, hY, fun k r hk => (hyoung k r hk).1⟩
  | restart hotCapacity coldCapacity maxBytes perOriginMaxBytes gap order =>
    exact h.restart elapsed hotCapacity coldCapacity maxBytes perOriginMaxBytes gap order

variable (hotCapacity coldCapacity : ℕ) (maxBytes perOriginMaxBytes : Option ℕ)

theorem dated_new : (new hotCapacity coldCapacity maxBytes perOriginMaxBytes).Dated :=
  ⟨_, ∅, holds_new .., nofun⟩

/-- **Records keep their age**, through both tiers and through the restarts that found them hot:
after a sweep no record is left that was put longer ago than its lifetime, with a second for each
restart and the time spent in snapshots; and the stamp that `get_with_meta` reports is no later than
the put, with the same allowance. -/
theorem records_keep_their_age (events : List (ℕ × LifeOp)) (a : Aging)
    (ha : a = events.foldl step (new hotCapacity coldCapacity maxBytes perOriginMaxBytes))
    (key : NodeId) (hwarm : (a.life key).fromCold = false) :
    (∀ now ttl expired, (a.store.retainFreshInner now ttl expired).contains key = true →
      now ≤ (a.life key).putAt + ttl + (a.life key).restarts * NANOS + (a.life key).down) ∧
    ∀ now coldNow value stamp, (a.store.getWithMeta key now coldNow).2 = some (value, stamp) →
      stamp ≤ (a.life key).putAt + (a.life key).restarts * NANOS + (a.life key).down := by
  obtain ⟨caps, X, hX, hdated⟩ : a.Dated :=
    ha ▸ Run.invariant (P := Dated) (fun _ event h => h.step event) (dated_new ..) events
  refine ⟨fun now ttl expired hleft => ?_, fun now coldNow value stamp hget => ?_⟩
  · obtain ⟨Y, hY, hyoung⟩ := hX.retainFreshInner now ttl expired
    have hin : key ∈ Y := (hY.shelved.mem_iff key).mpr (by
      rw [← AList.lookup_isSome, ← AList.lookup_isSome]
      exact (Bool.or_eq_true _ _).mp hleft)
    obtain ⟨r, hr⟩ := isSome_iff_exists.mp (AList.lookup_isSome.mpr hin)
    obtain ⟨hold, hage⟩ := hyoung key r hr
    have hlatest := (hdated key r hold).2 hwarm
    rw [Life.latest] at hlatest
    omega
  · obtain ⟨gone, -, hpromoted⟩ := hX.promote key now coldNow
    obtain ⟨e, he, heq⟩ := map_eq_some_iff.mp hget
    obtain ⟨r, hr, -, hfirst⟩ := hpromoted.shelved.lookup_of_hot he
    rw [← (Prod.mk.inj heq).2, ← hfirst]
    exact (hdated key r (lookup_of_lookup_eraseAll hr).2).2 hwarm

/-- The order as it comes, with one reading of the cold tier's clock for all the entries. -/
def asItComes (coldNow : ℕ) : Shuffle DhtValueSnapshot :=
  ⟨fun l => l.map fun e => (e, coldNow), fun l => by
    rw [List.map_map]
    exact List.Perm.of_eq (List.map_id l)⟩

/-- Two records, put at 0 s and 100 s into a hot tier of one entry, and a restart at 101 s. -/
def demoteThenRestart : List (ℕ × LifeOp) :=
  [(0, .putWithOriginAt (FixedBytes.replicate 32 1) [1] (FixedBytes.replicate 32 9) 0 0),
    (100 * NANOS, .putWithOriginAt (FixedBytes.replicate 32 2) [2] (FixedBytes.replicate 32 9) 0 0),
    (NANOS, .restart 1 10 none none 0 (asItComes (101 * NANOS)))]

/-- The first record is in the cold tier when the snapshot is taken. It comes back one second old,
outlives a sweep at 150 s with a lifetime of 100 s, and is reported as first seen at 100 s. -/
theorem demoted_record_outlives_ttl :
    ((demoteThenRestart.foldl step (new 1 10 none none)).store.retainFreshInner (150 * NANOS)
      (100 * NANOS) none).contains (FixedBytes.replicate 32 1) = true ∧
    ((demoteThenRestart.foldl step (new 1 10 none none)).life (FixedBytes.replicate 32 1)).putAt =
      0 ∧
    ((demoteThenRestart.foldl step (new 1 10 none none)).store.getWithMeta
      (FixedBytes.replicate 32 1) (101 * NANOS) (101 * NANOS)).2 = some ([1], 100 * NANOS) := by
  decide +kernel

/-- The second record is hot at the restart, and keeps its age: at 202 s it is gone. -/
theorem records_keep_their_age_hot :
    ((demoteThenRestart.foldl step (new 1 10 none none)).life
      (FixedBytes.replicate 32 2)).fromCold = false ∧
    ((demoteThenRestart.foldl step (new 1 10 none none)).store.retainFreshInner (202 * NANOS)
      (100 * NANOS) none).contains (FixedBytes.replicate 32 2) = false := by
  have hwarm : ((demoteThenRestart.foldl step (new 1 10 none none)).life
      (FixedBytes.replicate 32 2)).fromCold = false := by decide +kernel
  refine ⟨hwarm, Bool.eq_false_iff.mpr fun hleft => ?_⟩
  have hbound := (records_keep_their_age 1 10 none none demoteThenRestart _ rfl
    (FixedBytes.replicate 32 2) hwarm).1 (202 * NANOS) (100 * NANOS) none hleft
  exact absurd hbound (by decide +kernel)

end Aging

end VeilNetwork.Dht
