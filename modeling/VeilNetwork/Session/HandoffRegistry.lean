import VeilNetwork.Lib.AgeIndex
import VeilNetwork.Session.Registry

/-!
# Pending handoffs and swap channels

The two registries of `handoff.rs`. `HandoffRegistry` keeps, for a time, the sessions that may
be moved to another socket, at most a number of them, with an index by deadline that finds what
has expired and what is oldest. `SessionSwapRegistry` keeps, for each running session, the
channel that a new socket is sent to; a guard takes the row away when its session ends, and a
handle of the guard moves the row when the session gets another identifier.

The two maps of the first registry list the same sessions (`HandoffRegistry.Indexed`), which every
operation keeps; an operation loses what has expired, and one that only reads loses nothing else
(`HandoffRegistry.lookup_pruneLocked`).
-/

namespace VeilNetwork.Session

open Option Table List

/-! ### The handoffs that are awaited -/

/-- What is kept of a session that announced a handoff. The last field is not in the source: it
numbers the inserts, so that two of them can be told apart. -/
structure PendingHandoff where
  peerNodeId : NodeId
  nonce : FixedBytes 32
  rxKey : FixedBytes 32
  expiresAt : ℕ
  serial : ℕ
deriving DecidableEq

/-- The sessions that may move to another socket. -/
structure HandoffRegistry where
  ttl : ℕ
  maxEntries : ℕ
  bySession : Table SessionId PendingHandoff
  byDeadline : AgeIndex SessionId

namespace HandoffRegistry

def withConfig (ttl maxEntries : ℕ) : HandoffRegistry := ⟨ttl, maxEntries, ∅, OrdMap.empty⟩

/-- Take a row of the index and the session it names away. -/
def evict (r : HandoffRegistry) (t : ℕ) (id : SessionId) : HandoffRegistry :=
  { r with byDeadline := r.byDeadline.drop t id, bySession := r.bySession.erase id }

/-- The loop of `prune_locked`, for a number of turns at most. -/
def pruneLoop (now : ℕ) : ℕ → HandoffRegistry → HandoffRegistry
  | 0, r => r
  | n + 1, r =>
    match r.byDeadline.pairs.head? with
    | none => r
    | some (t, id) => if now < t then r else pruneLoop now n (r.evict t id)

variable (r : HandoffRegistry)

def pruneLocked (now : ℕ) : HandoffRegistry :=
  pruneLoop now r.byDeadline.size r

variable (id : SessionId)

/-- The oldest entry makes room for a session that is not there yet. -/
def makeRoom : HandoffRegistry :=
  if r.maxEntries ≤ r.bySession.size ∧ r.bySession.lookup id = none then
    match r.byDeadline.pairs.head? with
    | none => r
    | some (t, oldest) => r.evict t oldest
  else r

/-- The index without the row of a session. -/
def rowsWithout : AgeIndex SessionId :=
  match r.bySession.lookup id with
  | none => r.byDeadline
  | some old => r.byDeadline.drop old.expiresAt id

/-- Let a session wait. -/
def insert (r : HandoffRegistry) (now : ℕ) (id : SessionId) (peerNodeId : NodeId)
    (nonce rxKey : FixedBytes 32) (serial : ℕ) : HandoffRegistry :=
  let r' := (r.pruneLocked now).makeRoom id
  { r' with
    byDeadline := (r'.rowsWithout id).add (now + r.ttl) id
    bySession := r'.bySession.insert id ⟨peerNodeId, nonce, rxKey, now + r.ttl, serial⟩ }

/-- Look, and take nothing. -/
def peek (now : ℕ) (id : SessionId) : HandoffRegistry × Option PendingHandoff :=
  (r.pruneLocked now, (r.pruneLocked now).bySession.lookup id)

/-- Take an entry, once. -/
def consume (now : ℕ) (id : SessionId) : HandoffRegistry × Option PendingHandoff :=
  match (r.pruneLocked now).bySession.lookup id with
  | none => (r.pruneLocked now, none)
  | some e => ((r.pruneLocked now).evict e.expiresAt id, some e)

/-! ### The two maps agree -/

/-- When the entry of a session expires. -/
def deadline : Option ℕ :=
  (r.bySession.lookup id).map PendingHandoff.expiresAt

/-- The index lists the entries, each under its deadline. -/
def Indexed : Prop := r.byDeadline.Lists r.deadline

variable {r : HandoffRegistry} {now t n : ℕ} {id id' : SessionId} {e : PendingHandoff}

theorem indexed_withConfig (ttl maxEntries : ℕ) : (withConfig ttl maxEntries).Indexed :=
  AgeIndex.lists_empty fun _ => rfl

theorem Indexed.evict (h : r.Indexed) (hid : r.deadline id = some t) : (r.evict t id).Indexed := by
  refine .drop h hid fun id' => ?_
  rw [deadline, HandoffRegistry.evict, lookup_erase_eq_ite]
  split <;> rfl

theorem deadline_eq_none : r.deadline id = none ↔ r.bySession.lookup id = none :=
  map_eq_none_iff

theorem Indexed.head? (h : r.Indexed) (hhead : r.byDeadline.pairs.head? = some (t, id)) :
    ∃ e, r.bySession.lookup id = some e ∧ e.expiresAt = t :=
  map_eq_some_iff.mp (h.of_head? hhead)

/-- The maps have as many rows. -/
theorem Indexed.size_eq (h : r.Indexed) : r.byDeadline.size = r.bySession.size := by
  have hperm : (r.byDeadline.pairs.map Prod.snd).Perm r.bySession.keys := by
    rw [perm_ext_iff_of_nodup h.nodup_keys r.bySession.keys_nodup]
    intro id
    rw [mem_keys_iff, List.mem_map]
    constructor
    · rintro ⟨⟨t, id⟩, hmem, rfl⟩
      obtain ⟨e, he, -⟩ := map_eq_some_iff.mp ((h t id).mp hmem)
      exact ⟨e, he⟩
    · rintro ⟨e, he⟩
      exact ⟨(e.expiresAt, id), (h _ _).mpr (map_eq_some_iff.mpr ⟨e, he, rfl⟩), rfl⟩
  have hlen := hperm.length_eq
  rwa [length_map, AgeIndex.pairs, length_map, ← size_eq_length_keys] at hlen

/-! ### Pruning -/

variable (r t id id') in
theorem lookup_evict :
    (r.evict t id).bySession.lookup id' = if id' = id then none else r.bySession.lookup id' :=
  lookup_erase_eq_ite ..

/-- The loop has as many turns as it needs: it stops at the first row that has not expired, and
the rows behind it have not expired either. -/
theorem pruneLoop_spec (h : r.Indexed) (hn : r.byDeadline.size ≤ n) :
    (pruneLoop now n r).Indexed ∧ ∀ id, (pruneLoop now n r).bySession.lookup id =
      (r.bySession.lookup id).filter fun e => now < e.expiresAt := by
  have hempty (hnil : r.byDeadline.pairs.head? = none) (id : SessionId) :
      r.bySession.lookup id = (r.bySession.lookup id).filter fun e => now < e.expiresAt := by
    rw [deadline_eq_none.mp (h.of_head?_eq_none hnil)]
    rfl
  induction n generalizing r with
  | zero =>
    have hnil : r.byDeadline.entries = [] := eq_nil_of_length_eq_zero (Nat.le_zero.mp hn)
    refine ⟨h, hempty ?_⟩
    rw [AgeIndex.pairs, hnil]
    rfl
  | succ n ih =>
    rw [pruneLoop]
    split
    next hnil => exact ⟨h, hempty hnil⟩
    next t id hhead =>
      obtain ⟨e, he, rfl⟩ := h.head? hhead
      split
      next hlive =>
        refine ⟨h, fun id' => ?_⟩
        cases he' : r.bySession.lookup id' with
        | none => rfl
        | some e' =>
          have hmem := (h e'.expiresAt id').mpr (map_eq_some_iff.mpr ⟨e', he', rfl⟩)
          have hle := AgeIndex.le_of_head? hhead hmem
          rw [filter_some, if_pos (decide_eq_true (by omega))]
      next hdead =>
        have hrow : r.deadline id = some e.expiresAt := map_eq_some_iff.mpr ⟨e, he, rfl⟩
        have hsize := AgeIndex.size_drop ((h _ _).mpr hrow)
        have hevict := h.evict hrow
        have hlt : (r.evict e.expiresAt id).byDeadline.size ≤ n :=
          Nat.le_of_succ_le_succ (hsize.trans_le hn)
        obtain ⟨hind, hlook⟩ := ih hevict hlt fun hnil id' => by
          rw [deadline_eq_none.mp (hevict.of_head?_eq_none hnil)]
          rfl
        refine ⟨hind, fun id' => ?_⟩
        rw [hlook, lookup_evict]
        split
        next heq =>
          rw [heq, he, filter_some, if_neg (by simpa using hdead)]
          rfl
        · rfl

theorem Indexed.pruneLocked (h : r.Indexed) (now : ℕ) : (r.pruneLocked now).Indexed :=
  (pruneLoop_spec h le_rfl).1

/-- **Pruning loses what has expired**, and nothing else. -/
theorem Indexed.lookup_pruneLocked (h : r.Indexed) (now : ℕ) (id : SessionId) :
    (r.pruneLocked now).bySession.lookup id =
      (r.bySession.lookup id).filter fun e => now < e.expiresAt :=
  (pruneLoop_spec h le_rfl).2 id

theorem Indexed.lookup_pruneLocked_of_live (h : r.Indexed) (he : r.bySession.lookup id = some e)
    (hlive : now < e.expiresAt) : (r.pruneLocked now).bySession.lookup id = some e := by
  rw [h.lookup_pruneLocked, he, filter_some, if_pos (decide_eq_true hlive)]

theorem maxEntries_pruneLocked (r : HandoffRegistry) (now : ℕ) :
    (r.pruneLocked now).maxEntries = r.maxEntries := by
  have hloop (n : ℕ) (r : HandoffRegistry) : (pruneLoop now n r).maxEntries = r.maxEntries := by
    induction n generalizing r with
    | zero => rfl
    | succ n ih =>
      rw [pruneLoop]
      split
      · rfl
      · split
        · rfl
        · exact ih _
  exact hloop _ r

/-- The entries of one registry are entries of another. -/
def Within (r' r : HandoffRegistry) : Prop :=
  ∀ id e, r'.bySession.lookup id = some e → r.bySession.lookup id = some e

theorem Within.size_le {r' : HandoffRegistry} (h : r'.Within r) :
    r'.bySession.size ≤ r.bySession.size :=
  size_le_of_lookup h

variable (r t id) in
theorem within_evict : (r.evict t id).Within r :=
  fun _ _ h => (lookup_erase_eq_some h).2

theorem Indexed.within_pruneLocked (h : r.Indexed) (now : ℕ) : (r.pruneLocked now).Within r := by
  intro id e he
  rw [h.lookup_pruneLocked] at he
  exact (filter_eq_some_iff.mp he).1

/-! ### Inserting -/

theorem Indexed.makeRoom (h : r.Indexed) (id : SessionId) : (r.makeRoom id).Indexed := by
  rw [HandoffRegistry.makeRoom]
  split
  · split
    · exact h
    next hhead => exact h.evict (h.of_head? hhead)
  · exact h

variable (r id) in
theorem within_makeRoom : (r.makeRoom id).Within r := by
  rw [makeRoom]
  split
  · split
    · exact fun _ _ he => he
    · exact within_evict r _ _
  · exact fun _ _ he => he

variable (r id) in
theorem maxEntries_makeRoom :
    (r.makeRoom id).maxEntries = r.maxEntries := by
  rw [makeRoom]
  split
  · split <;> rfl
  · rfl

/-- After making room there is room for a new session, if there can be any at all. -/
theorem Indexed.size_makeRoom (h : r.Indexed) (hpos : 0 < r.maxEntries)
    (hsize : r.bySession.size ≤ r.maxEntries) (hid : (r.makeRoom id).bySession.lookup id = none) :
    (r.makeRoom id).bySession.size < r.maxEntries := by
  rw [HandoffRegistry.makeRoom] at hid ⊢
  split at hid
  next hfull =>
    rw [if_pos hfull]
    split at hid
    next hnil =>
      have hentries : r.byDeadline.size = 0 :=
        length_eq_zero_iff.mpr (map_eq_nil_iff.mp (head?_eq_none_iff.mp hnil))
      rwa [← h.size_eq, hentries]
    next t oldest hhead =>
      obtain ⟨e, he, -⟩ := h.head? hhead
      have hcount := size_erase_of_lookup_eq_some he
      exact hcount.trans_le hsize
  next hroom =>
    rw [if_neg hroom]
    by_contra hfull
    exact hroom ⟨not_lt.mp hfull, hid⟩

variable {peerNodeId : NodeId} {nonce rxKey : FixedBytes 32} {serial : ℕ}

variable (r now id id') in
theorem lookup_insert :
    (r.insert now id peerNodeId nonce rxKey serial).bySession.lookup id' =
      if id' = id then some ⟨peerNodeId, nonce, rxKey, now + r.ttl, serial⟩
      else ((r.pruneLocked now).makeRoom id).bySession.lookup id' :=
  lookup_insert_eq_ite ..

theorem Indexed.rowsWithout (h : r.Indexed) (id : SessionId) :
    (r.rowsWithout id).Lists fun id' => if id' = id then none else r.deadline id' := by
  rw [HandoffRegistry.rowsWithout]
  split
  next hnone =>
    refine h.congr fun id' => ?_
    split
    next heq => rw [heq, deadline_eq_none.mpr hnone]
    · rfl
  next old hold => exact h.drop (map_eq_some_iff.mpr ⟨old, hold, rfl⟩) fun _ => rfl

theorem Indexed.insert (h : r.Indexed) :
    (r.insert now id peerNodeId nonce rxKey serial).Indexed := by
  have hrows := ((h.pruneLocked now).makeRoom id).rowsWithout id
  refine hrows.add (if_pos rfl) fun id' => ?_
  rw [deadline, lookup_insert]
  split <;> rfl

theorem Indexed.size_insert (h : r.Indexed) (hpos : 0 < r.maxEntries)
    (hsize : r.bySession.size ≤ r.maxEntries) :
    (r.insert now id peerNodeId nonce rxKey serial).bySession.size ≤ r.maxEntries := by
  have hprune := (h.within_pruneLocked now).size_le.trans hsize
  have hmax := maxEntries_pruneLocked r now
  have hroom := (within_makeRoom (r.pruneLocked now) id).size_le
  rw [HandoffRegistry.insert]
  cases hold : ((r.pruneLocked now).makeRoom id).bySession.lookup id with
  | none =>
    have hlt := (h.pruneLocked now).size_makeRoom (hmax ▸ hpos) (hmax ▸ hprune) hold
    rw [size_insert_of_lookup_eq_none hold]
    omega
  | some old =>
    rw [size_insert_of_lookup_eq_some hold]
    omega

variable (r now id) in
theorem maxEntries_insert :
    (r.insert now id peerNodeId nonce rxKey serial).maxEntries = r.maxEntries :=
  (maxEntries_makeRoom ..).trans (maxEntries_pruneLocked ..)

/-- **An insert brings one entry**; the others were there. -/
theorem Indexed.lookup_insert_eq_some (h : r.Indexed)
    (he : (r.insert now id peerNodeId nonce rxKey serial).bySession.lookup id' = some e) :
    (id' = id ∧ e = ⟨peerNodeId, nonce, rxKey, now + r.ttl, serial⟩) ∨
      r.bySession.lookup id' = some e := by
  rw [lookup_insert] at he
  split at he
  next heq => exact .inl ⟨heq, (some.inj he).symm⟩
  · exact .inr (h.within_pruneLocked now _ _ (within_makeRoom _ _ _ _ he))

/-! ### Consuming -/

/-- **An entry is handed out once**: what is consumed had not expired, and it is gone. -/
theorem Indexed.consume_eq_some {r' : HandoffRegistry} (h : r.Indexed)
    (hconsume : r.consume now id = (r', some e)) :
    r.bySession.lookup id = some e ∧ now < e.expiresAt ∧
      r' = (r.pruneLocked now).evict e.expiresAt id := by
  rw [consume] at hconsume
  split at hconsume
  · cases hconsume
  next e' he =>
    obtain ⟨rfl, heq⟩ := Prod.mk.inj hconsume
    cases heq
    rw [h.lookup_pruneLocked, filter_eq_some_iff, decide_eq_true_eq] at he
    exact ⟨he.1, he.2, rfl⟩

theorem Indexed.consumed (h : r.Indexed) (he : r.bySession.lookup id = some e)
    (hlive : now < e.expiresAt) : ((r.pruneLocked now).evict e.expiresAt id).Indexed := by
  refine (h.pruneLocked now).evict (map_eq_some_iff.mpr ⟨e, ?_, rfl⟩)
  exact h.lookup_pruneLocked_of_live he hlive

end HandoffRegistry

/-! ### The channels of the sessions -/

structure SessionHandoffHandles where
  swapTx : ℕ
  txKey : FixedBytes 32
deriving DecidableEq

structure SessionSwapRegistry where
  bySession : Table SessionId SessionHandoffHandles
  byPeer : Table NodeId SessionId

/-- The handles are those it was handed out for; the source does not keep them in the guard. -/
structure SwapRegistryGuard where
  sessionId : SessionId
  peerNodeId : NodeId
  handles : SessionHandoffHandles

namespace SessionSwapRegistry

def new : SessionSwapRegistry := ⟨∅, ∅⟩

variable (r : SessionSwapRegistry) (id : SessionId)

def register (peer : NodeId) (handles : SessionHandoffHandles) : SessionSwapRegistry :=
  ⟨r.bySession.insert id handles, r.byPeer.insert peer id⟩

def get : Option ℕ :=
  (r.bySession.lookup id).map SessionHandoffHandles.swapTx

def rekey (old newId : SessionId) (peer : NodeId) : SessionSwapRegistry :=
  if old = newId then r
  else
    match r.bySession.lookup old with
    | none => r
    | some handles =>
      ⟨(r.bySession.erase old).insert newId handles,
        if r.byPeer.lookup peer = some old then r.byPeer.insert peer newId else r.byPeer⟩

def remove (peer : NodeId) : SessionSwapRegistry :=
  ⟨r.bySession.erase id,
    if r.byPeer.lookup peer = some id then r.byPeer.erase peer else r.byPeer⟩

/-- Every guard has its row, and no two guards have the same one. -/
structure Filed (r : SessionSwapRegistry) (guards : Table ℕ SwapRegistryGuard) : Prop where
  rows : ∀ g gd, guards.lookup g = some gd → r.bySession.lookup gd.sessionId = some gd.handles
  apart : ∀ g g' gd gd', guards.lookup g = some gd → guards.lookup g' = some gd' →
    gd.sessionId = gd'.sessionId → g = g'

/-- No guard but one has an identifier. -/
def Unheld (guards : Table ℕ SwapRegistryGuard) (g : ℕ) (id : SessionId) : Prop :=
  ∀ g' gd, g' ≠ g → guards.lookup g' = some gd → gd.sessionId ≠ id

variable {r : SessionSwapRegistry} {guards : Table ℕ SwapRegistryGuard} {g : ℕ}
  {gd : SwapRegistryGuard}

/-- A guard that is set to an identifier no other guard has is apart from them. -/
theorem apart_insert (happart : ∀ g g' gd gd', guards.lookup g = some gd →
      guards.lookup g' = some gd' → gd.sessionId = gd'.sessionId → g = g')
    (hun : Unheld guards g gd.sessionId) (g₁ g₂ : ℕ) (gd₁ gd₂ : SwapRegistryGuard)
    (h₁ : (guards.insert g gd).lookup g₁ = some gd₁)
    (h₂ : (guards.insert g gd).lookup g₂ = some gd₂) (heq : gd₁.sessionId = gd₂.sessionId) :
    g₁ = g₂ := by
  rw [lookup_insert_eq_ite] at h₁ h₂
  split at h₁
  next hg₁ =>
    cases h₁
    split at h₂
    next hg₂ => rw [hg₁, hg₂]
    next hg₂ => exact absurd heq.symm (hun g₂ gd₂ hg₂ h₂)
  next hg₁ =>
    split at h₂
    · cases h₂
      exact absurd heq (hun g₁ gd₁ hg₁ h₁)
    · exact happart g₁ g₂ gd₁ gd₂ h₁ h₂ heq

theorem Filed.register (h : r.Filed guards) (hun : Unheld guards g gd.sessionId) :
    (r.register gd.sessionId gd.peerNodeId gd.handles).Filed (guards.insert g gd) where
  rows g' gd' hgd' := by
    rw [lookup_insert_eq_ite] at hgd'
    rw [SessionSwapRegistry.register, lookup_insert_eq_ite]
    split at hgd'
    · cases hgd'
      exact if_pos rfl
    next hne =>
      rw [if_neg (hun g' gd' hne hgd')]
      exact h.rows g' gd' hgd'
  apart := apart_insert h.apart hun

/-- The row goes along with its guard. -/
theorem Filed.rekey (h : r.Filed guards) (hg : guards.lookup g = some gd) {newId : SessionId}
    (hun : Unheld guards g newId) :
    (r.rekey gd.sessionId newId gd.peerNodeId).Filed
      (guards.insert g { gd with sessionId := newId }) where
  rows g' gd' hgd' := by
    rw [lookup_insert_eq_ite] at hgd'
    rw [SessionSwapRegistry.rekey, h.rows g gd hg]
    split at hgd'
    · cases hgd'
      split
      next heq => exact heq ▸ h.rows g gd hg
      · rw [lookup_insert_eq_ite, if_pos rfl]
    next hne =>
      have hrow := h.rows g' gd' hgd'
      split
      · exact hrow
      · have hold : gd'.sessionId ≠ gd.sessionId := fun heq =>
          hne (h.apart g' g gd' gd hgd' hg heq)
        rw [lookup_insert_eq_ite, if_neg (hun g' gd' hne hgd'), lookup_erase_eq_ite,
          if_neg hold]
        exact hrow
  apart := apart_insert h.apart hun

/-- **A guard takes its own row only**: the rows of the others stay, and so do the peers that
are filed for them. -/
theorem Filed.keeps_others (h : r.Filed guards) (hg : guards.lookup g = some gd) {g' : ℕ}
    {gd' : SwapRegistryGuard} (hne : g' ≠ g) (hg' : guards.lookup g' = some gd') :
    (r.remove gd.sessionId gd.peerNodeId).bySession.lookup gd'.sessionId = some gd'.handles ∧
      ∀ p, r.byPeer.lookup p = some gd'.sessionId →
        (r.remove gd.sessionId gd.peerNodeId).byPeer.lookup p = some gd'.sessionId := by
  have hid : gd'.sessionId ≠ gd.sessionId := fun heq => hne (h.apart g' g gd' gd hg' hg heq)
  rw [remove]
  constructor
  · rw [lookup_erase_eq_ite, if_neg hid]
    exact h.rows g' gd' hg'
  · intro p hp
    split
    next hpeer =>
      rw [lookup_erase_eq_ite, if_neg]
      · exact hp
      · rintro rfl
        exact hid (some.inj (hp.symm.trans hpeer))
    · exact hp

theorem Filed.remove (h : r.Filed guards) (hg : guards.lookup g = some gd) :
    (r.remove gd.sessionId gd.peerNodeId).Filed (guards.erase g) where
  rows g' gd' hgd' := by
    obtain ⟨hne, hgd'⟩ := lookup_erase_eq_some hgd'
    exact (h.keeps_others hg hne hgd').1
  apart g₁ g₂ gd₁ gd₂ h₁ h₂ :=
    h.apart g₁ g₂ gd₁ gd₂ (lookup_erase_eq_some h₁).2 (lookup_erase_eq_some h₂).2

end SessionSwapRegistry

end VeilNetwork.Session
