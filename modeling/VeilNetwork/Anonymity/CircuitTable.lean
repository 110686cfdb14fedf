import VeilNetwork.Anonymity.CircuitSetup
import VeilNetwork.Lib.Buckets

/-!
# The circuit table of a relay

A relay keeps the circuits through it under two keys (`circuit_table.rs`): the link and the
identifier that cells of the originator carry, and those that returning cells carry. A third
index lists the circuits of every previous link. The circuits themselves are shared, so the
indices hold their handles, numbers in the order of allocation; a handle may be touched after its
circuit has left the table.

`CircuitTable.Consistent` says that the three indices describe one set of circuits. Circuits leave
the table in one way (`CircuitTable.detach`), and what holds of any number of such steps is
collected in `CircuitTable.Shrinks`.
-/

namespace VeilNetwork.Anonymity

open AList List Option Table

/-- A neighbour's name. -/
abbrev Link : Type := NodeId

abbrev CircuitId : Type := UInt32

abbrev Cookie : Type := FixedBytes 16

/-- `SERVED_LINGER_SECS`. -/
def servedLingerSecs : ℕ := 30

/-! ### Circuits -/

/-- A relay's view of a circuit. -/
structure CircuitState where
  circuitKey : CircuitKey
  prevLink : Link
  circuitIdIn : CircuitId
  nextLink : Option Link
  circuitIdOut : CircuitId
  cellBytes : CircuitCellBytes
  lastSeenUnix : ℕ
  registeredCookie : Option Cookie
  lastServedUnix : ℕ
deriving DecidableEq

namespace CircuitState

def fromInstall (install : CircuitInstall) (prevLink : Link) (nextLink : Option Link) (now : ℕ) :
    CircuitState where
  circuitKey := install.circuitKey
  prevLink := prevLink
  circuitIdIn := install.circuitIdIn
  nextLink := nextLink
  circuitIdOut := install.circuitIdOut
  cellBytes := install.cellBytes
  lastSeenUnix := now
  registeredCookie := none
  lastServedUnix := 0

def touch (now : ℕ) (c : CircuitState) : CircuitState := { c with lastSeenUnix := now }

def markServed (now : ℕ) (c : CircuitState) : CircuitState :=
  { c with lastServedUnix := max c.lastServedUnix now }

def setRegisteredCookie (cookie : Cookie) (c : CircuitState) : CircuitState :=
  { c with registeredCookie := some cookie }

/-- What cells of the originator carry. -/
def forwardKey (c : CircuitState) : Link × CircuitId := (c.prevLink, c.circuitIdIn)

/-- What returning cells carry, at a circuit that goes on. -/
def returnKey (c : CircuitState) : Option (Link × CircuitId) :=
  c.nextLink.map fun nl => (nl, c.circuitIdOut)

/-- Idle for the lifetime. -/
def idle (ttlSecs now : ℕ) (c : CircuitState) : Bool := ttlSecs ≤ now - c.lastSeenUnix

/-- Served, and quiet since. -/
def servedQuiet (now : ℕ) (c : CircuitState) : Bool :=
  c.lastServedUnix != 0 && servedLingerSecs ≤ now - c.lastServedUnix

end CircuitState

inductive InstallError where
  | tableFull
  | perLinkFull
  | duplicate
deriving DecidableEq

/-! ### The table -/

/-- A relay's circuit table; `circuits` are all circuits it ever made, by their handles. -/
structure CircuitTable where
  maxTotal : ℕ
  maxPerLink : ℕ
  ttlSecs : ℕ
  circuits : List CircuitState
  fwd : Table (Link × CircuitId) ℕ
  bwd : Table (Link × CircuitId) ℕ
  perLink : Buckets Link CircuitId

namespace CircuitTable

variable (maxTotal maxPerLink ttlSecs : ℕ)

def withParams : CircuitTable where
  maxTotal := max maxTotal 1
  maxPerLink := max maxPerLink 1
  ttlSecs := ttlSecs
  circuits := []
  fwd := ∅
  bwd := ∅
  perLink := ∅

variable (t : CircuitTable) (prevLink : Link)

/-- The occupancy of a link's bucket. -/
def bucketLen : ℕ := (t.perLink.bucket prevLink).length

/-- The return key of the circuit with a handle. -/
def returnKey (t : CircuitTable) (h : ℕ) : Option (Link × CircuitId) :=
  t.circuits[h]?.bind CircuitState.returnKey

/-- Drop a circuit's entry of the backward index. -/
def eraseReturn (h : ℕ) : Table (Link × CircuitId) ℕ :=
  match t.returnKey h with
  | some k => t.bwd.erase k
  | none => t.bwd

/-- Unlink a circuit from all indices. -/
def detach (k : Link × CircuitId) : CircuitTable × Option ℕ :=
  match t.fwd.lookup k with
  | none => (t, none)
  | some h =>
    ({ t with
        fwd := t.fwd.erase k
        bwd := t.eraseReturn h
        perLink := t.perLink.unbucket k.1 k.2 }, some h)

variable (keys : List (Link × CircuitId))

def detachAll : CircuitTable :=
  keys.foldl (fun t k => (t.detach k).1) t

variable (p : CircuitState → Bool)

/-- The circuit under a forward key meets a condition. -/
def holds (k : Link × CircuitId) : Bool :=
  (t.fwd.lookup k).any fun h => t.circuits[h]?.any p

/-- Those of some forward keys whose circuit meets a condition. -/
def keysWhere : List (Link × CircuitId) :=
  keys.filter (t.holds p)

/-- Drop those of some circuits that meet a condition. -/
def dropWhere : CircuitTable :=
  t.detachAll (t.keysWhere keys p)

/-- Make room in a part of the table: first drop what is idle, then, if the part is still full,
what has served and is quiet. -/
def reclaim (keys : CircuitTable → List (Link × CircuitId)) (count : CircuitTable → ℕ) (cap : ℕ)
    (t : CircuitTable) (now : ℕ) : CircuitTable :=
  let t₁ := t.dropWhere (keys t) (CircuitState.idle t.ttlSecs now)
  if count t₁ < cap then t₁ else t₁.dropWhere (keys t₁) (CircuitState.servedQuiet now)

/-- The forward keys of a link's bucket. -/
def bucketKeys (t : CircuitTable) : List (Link × CircuitId) :=
  (t.perLink.bucket prevLink).map fun cid => (prevLink, cid)

variable (now : ℕ)

def reclaimBucket : CircuitTable :=
  reclaim (bucketKeys prevLink) (fun t => t.bucketLen prevLink) t.maxPerLink t now

def reclaimTable : CircuitTable :=
  reclaim (fun t => t.fwd.keys) (fun t => t.fwd.size) t.maxTotal t now

/-- The backward index has another circuit under the key. -/
def returnTaken (k : Option (Link × CircuitId)) : Bool :=
  k.any fun k => (t.bwd.lookup k).isSome

/-- Allocate a circuit and enter it into the indices. -/
def add (c : CircuitState) : CircuitTable :=
  { t with
    circuits := t.circuits ++ [c]
    fwd := t.fwd.insert c.forwardKey t.circuits.length
    bwd := match c.returnKey with
      | some k => t.bwd.insert k t.circuits.length
      | none => t.bwd
    perLink := t.perLink.push c.prevLink c.circuitIdIn }

/-- Room in the table, by reclaiming if there is none. -/
def makeRoom : CircuitTable :=
  if t.maxTotal ≤ t.fwd.size then t.reclaimTable now else t

/-- Room in a bucket, by reclaiming if there is none. -/
def makeRoomForLink : CircuitTable :=
  if t.maxPerLink ≤ t.bucketLen prevLink then t.reclaimBucket prevLink now else t

/-- Enter a circuit, where there is room. -/
def install (inst : CircuitInstall) (prevLink : Link) (nextLink : Option Link) (now : ℕ) :
    CircuitTable × Except InstallError ℕ :=
  let c := CircuitState.fromInstall inst prevLink nextLink now
  if (t.fwd.lookup c.forwardKey).isSome then (t, .error .duplicate)
  else
    let t := t.makeRoom now
    if t.maxTotal ≤ t.fwd.size then (t, .error .tableFull)
    else
      let t := t.makeRoomForLink prevLink now
      if t.maxPerLink ≤ t.bucketLen prevLink then (t, .error .perLinkFull)
      else if t.returnTaken c.returnKey then (t, .error .duplicate)
      else (t.add c, .ok t.circuits.length)

def lookupForward (cidIn : CircuitId) : Option ℕ :=
  t.fwd.lookup (prevLink, cidIn)

def lookupBackward (nextLink : Link) (cidOut : CircuitId) : Option ℕ :=
  t.bwd.lookup (nextLink, cidOut)

/-- Take a circuit out. -/
def remove (cidIn : CircuitId) : CircuitTable :=
  (t.detach (prevLink, cidIn)).1

/-- Drop the idle circuits. -/
def gc : CircuitTable × ℕ :=
  (t.dropWhere t.fwd.keys (CircuitState.idle t.ttlSecs now),
    (t.keysWhere t.fwd.keys (CircuitState.idle t.ttlSecs now)).length)

/-- Change the circuit with a handle. -/
def modify (t : CircuitTable) (h : ℕ) (f : CircuitState → CircuitState) : CircuitTable :=
  { t with circuits := t.circuits.modify h f }

/-- Where the handler of data cells takes a cell that arrived on a link: the forward index is
asked first. -/
def route (link : Link) (cid : CircuitId) : Option (Direction × ℕ) :=
  match t.lookupForward link cid with
  | some h => some (.forward, h)
  | none =>
    match t.lookupBackward link cid with
    | some h => some (.back, h)
    | none => none

/-! ### The indices describe one set of circuits -/

/-- **The indices agree**: a forward key leads to the circuit with that key, the backward index
has exactly the circuits of the forward one that go on, and the buckets list the forward keys. -/
structure Consistent (t : CircuitTable) : Prop where
  fwd_key : ∀ k h, t.fwd.lookup k = some h → ∃ c, t.circuits[h]? = some c ∧ c.forwardKey = k
  bwd_iff : ∀ k h, t.bwd.lookup k = some h ↔
    ∃ c, t.circuits[h]? = some c ∧ t.fwd.lookup c.forwardKey = some h ∧ c.returnKey = some k
  index : t.perLink.Index fun link cid => (t.fwd.lookup (link, cid)).isSome

variable {t t' t'' : CircuitTable} {k k' : Link × CircuitId} {h h' : ℕ} {c : CircuitState}
  {now : ℕ}

theorem Consistent.withParams :
    Consistent (withParams maxTotal maxPerLink ttlSecs) where
  fwd_key k h hk := by
    cases hk
  bwd_iff k h := by
    refine iff_of_false (fun hk => ?_) ?_
    · cases hk
    · rintro ⟨c, hc, -⟩
      cases hc
  index := Buckets.Index.empty fun link cid hk => by
    cases hk

theorem Consistent.returnKey_eq (hcons : t.Consistent) (hk : t.fwd.lookup k = some h)
    (hr : t.returnKey h = some k') : t.bwd.lookup k' = some h := by
  obtain ⟨c, hc, rfl⟩ := hcons.fwd_key k h hk
  rw [CircuitTable.returnKey, hc] at hr
  exact (hcons.bwd_iff k' h).mpr ⟨c, hc, hk, hr⟩

/-! ### Circuits leave -/

/-- Circuits have left the table and nothing else has happened to it. -/
structure Shrinks (t t' : CircuitTable) : Prop where
  circuits_eq : t'.circuits = t.circuits
  maxTotal_eq : t'.maxTotal = t.maxTotal
  maxPerLink_eq : t'.maxPerLink = t.maxPerLink
  ttlSecs_eq : t'.ttlSecs = t.ttlSecs
  lookup_of : ∀ k h, t'.fwd.lookup k = some h → t.fwd.lookup k = some h
  bwd_of : ∀ k h, t'.bwd.lookup k = some h → t.bwd.lookup k = some h
  consistent : t.Consistent → t'.Consistent

theorem Shrinks.refl (t : CircuitTable) : Shrinks t t :=
  ⟨rfl, rfl, rfl, rfl, fun _ _ h => h, fun _ _ h => h, fun h => h⟩

theorem Shrinks.trans (h₁ : Shrinks t t') (h₂ : Shrinks t' t'') : Shrinks t t'' where
  circuits_eq := h₂.circuits_eq.trans h₁.circuits_eq
  maxTotal_eq := h₂.maxTotal_eq.trans h₁.maxTotal_eq
  maxPerLink_eq := h₂.maxPerLink_eq.trans h₁.maxPerLink_eq
  ttlSecs_eq := h₂.ttlSecs_eq.trans h₁.ttlSecs_eq
  lookup_of k h hk := h₁.lookup_of k h (h₂.lookup_of k h hk)
  bwd_of k h hk := h₁.bwd_of k h (h₂.bwd_of k h hk)
  consistent hcons := h₂.consistent (h₁.consistent hcons)

theorem eraseReturn_lookup_eq_some (hk : (t.eraseReturn h).lookup k = some h') :
    t.returnKey h ≠ some k ∧ t.bwd.lookup k = some h' := by
  rw [eraseReturn] at hk
  split at hk
  next key hkey =>
    obtain ⟨hne, hold⟩ := lookup_erase_eq_some hk
    rw [hkey]
    exact ⟨fun heq => hne (some.inj heq).symm, hold⟩
  next hkey =>
    rw [hkey]
    exact ⟨fun heq => (by cases heq), hk⟩

theorem lookup_eraseReturn_of_ne (hne : t.returnKey h ≠ some k) :
    (t.eraseReturn h).lookup k = t.bwd.lookup k := by
  rw [eraseReturn]
  split
  next key hkey => exact lookup_erase_ne fun heq => hne (heq ▸ hkey)
  · rfl

theorem detach_of_lookup (hk : t.fwd.lookup k = some h) :
    (t.detach k).1 = { t with
      fwd := t.fwd.erase k
      bwd := t.eraseReturn h
      perLink := t.perLink.unbucket k.1 k.2 } := by
  rw [detach, hk]

theorem detach_of_lookup_eq_none (hk : t.fwd.lookup k = none) : (t.detach k).1 = t := by
  rw [detach, hk]

theorem Consistent.detach (hcons : t.Consistent) (k : Link × CircuitId) :
    (t.detach k).1.Consistent := by
  rcases hk : t.fwd.lookup k with _ | h
  · rwa [detach_of_lookup_eq_none hk]
  rw [detach_of_lookup hk]
  refine ⟨?_, ?_, ?_⟩
  · intro k' h' hk'
    exact hcons.fwd_key k' h' (lookup_erase_eq_some hk').2
  · intro k' h'
    constructor
    · intro hk'
      obtain ⟨hne, hold⟩ := eraseReturn_lookup_eq_some hk'
      obtain ⟨c, hc, hfwd, hret⟩ := (hcons.bwd_iff k' h').mp hold
      refine ⟨c, hc, ?_, hret⟩
      -- the circuit that leaves has another return key, so this one stays
      have hkey : c.forwardKey ≠ k := by
        rintro rfl
        obtain rfl : h = h' := some.inj (hk.symm.trans hfwd)
        exact hne (by rw [CircuitTable.returnKey, hc, bind_some, hret])
      exact (lookup_erase_ne hkey).trans hfwd
    · rintro ⟨c, hc, hfwd, hret⟩
      obtain ⟨hne, hold⟩ := lookup_erase_eq_some hfwd
      have hbwd : t.bwd.lookup k' = some h' := (hcons.bwd_iff k' h').mpr ⟨c, hc, hold, hret⟩
      refine (lookup_eraseReturn_of_ne fun heq => hne ?_).trans hbwd
      obtain rfl : h = h' := some.inj ((hcons.returnKey_eq hk heq).symm.trans hbwd)
      obtain ⟨c', hc', rfl⟩ := hcons.fwd_key k h hk
      rw [some.inj (hc.symm.trans hc')]
  · refine hcons.index.unbucket k.1 k.2 fun link cid => ?_
    rcases eq_or_ne (link, cid) k with rfl | hne
    · simp
    · rw [lookup_erase_ne hne]
      have : ¬(link = k.1 ∧ cid = k.2) := fun heq => hne (Prod.ext heq.1 heq.2)
      simp [this]

variable (t k) in
theorem Shrinks.detach : Shrinks t (t.detach k).1 := by
  rcases hk : t.fwd.lookup k with _ | h
  · rw [detach_of_lookup_eq_none hk]
    exact .refl t
  · have hcons := fun hcons : t.Consistent => hcons.detach k
    rw [detach_of_lookup hk] at hcons ⊢
    exact ⟨rfl, rfl, rfl, rfl, fun _ _ hk' => (lookup_erase_eq_some hk').2,
      fun _ _ hk' => (eraseReturn_lookup_eq_some hk').2, hcons⟩

variable (t k k') in
theorem lookup_detach :
    (t.detach k).1.fwd.lookup k' = if k' = k then none else t.fwd.lookup k' := by
  rcases hk : t.fwd.lookup k with _ | h
  · rw [detach_of_lookup_eq_none hk]
    split
    next heq => rw [heq, hk]
    · rfl
  · rw [detach_of_lookup hk]
    split
    next heq => rw [heq, lookup_erase]
    next hne => rw [lookup_erase_ne hne]

theorem Shrinks.detachAll (t : CircuitTable) (keys : List (Link × CircuitId)) :
    Shrinks t (t.detachAll keys) := by
  induction keys generalizing t with
  | nil => exact .refl t
  | cons k keys ih => exact (Shrinks.detach t k).trans (ih (t.detach k).1)

theorem lookup_detachAll_of_notMem (t : CircuitTable) {keys : List (Link × CircuitId)}
    (hk : k ∉ keys) : (t.detachAll keys).fwd.lookup k = t.fwd.lookup k := by
  induction keys generalizing t with
  | nil => rfl
  | cons k₀ keys ih =>
    rw [mem_cons, not_or] at hk
    obtain ⟨hne, hrest⟩ := hk
    refine (ih (t.detach k₀).1 hrest).trans ?_
    rw [lookup_detach, if_neg hne]

/-! ### What is counted -/

theorem Shrinks.size_le (hs : Shrinks t t') : t'.fwd.size ≤ t.fwd.size :=
  size_le_of_lookup hs.lookup_of

theorem Shrinks.isSome_of (hs : Shrinks t t') (hk : (t'.fwd.lookup k).isSome) :
    (t.fwd.lookup k).isSome := by
  obtain ⟨h, hk⟩ := isSome_iff_exists.mp hk
  exact hs.lookup_of k h hk ▸ rfl

theorem Shrinks.bucketLen_le (hs : Shrinks t t') (hcons : t.Consistent) (link : Link) :
    t'.bucketLen link ≤ t.bucketLen link :=
  hcons.index.length_le (hs.consistent hcons).index fun _ => hs.isSome_of

/-- A circuit that left makes room in its bucket. -/
theorem Shrinks.bucketLen_lt (hs : Shrinks t t') (hcons : t.Consistent)
    (hk : t.fwd.lookup k = some h) (hk' : t'.fwd.lookup k = none) :
    t'.bucketLen k.1 < t.bucketLen k.1 :=
  hcons.index.length_lt (hs.consistent hcons).index (fun _ => hs.isSome_of)
    (isSome_iff_exists.mpr ⟨h, hk⟩) (by rw [hk']; nofun)

end CircuitTable

end VeilNetwork.Anonymity
