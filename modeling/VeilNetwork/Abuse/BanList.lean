import Mathlib.Algebra.Order.Monoid.Unbundled.WithTop
import VeilNetwork.Lib.OrdMap
import VeilNetwork.Lib.Run
import VeilNetwork.Lib.Table

/-!
# The ban list

A ban ends at a time or never (`⊤`). The list keeps its entries by peer, and beside them the order
in which they were made, from which it takes the entry that has to go when it is full. Operators
ban peers by hand; the tracker of violations bans them by itself, and both write the same entry.

In every run the order lists the entries by their numbers and the list keeps to its size, and what
is removed for want of room is what should be. A ban stays in force as long as no automatic one is
laid over it that is shorter or over a manual one (`BanList.bans_stay`); the list does not check
this (`BanList.manual_ban_replaced`).
-/

namespace VeilNetwork.Abuse

open List Option Table AList

def maxBanListSize : ℕ := 8192

def maxViolationTrackerSize : ℕ := 8192

/-- The ban of a peer. -/
structure BanEntry where
  reason : String
  /-- A permanent ban has no end. -/
  bannedUntil : WithTop ℕ
  seq : ℕ
  manual : Bool
  deriving DecidableEq

def BanEntry.isExpired (e : BanEntry) (now : ℕ) : Bool := decide (e.bannedUntil ≤ now)

/-- The banned peers. -/
structure BanList (N : Type) [DecidableEq N] where
  entries : Table N BanEntry
  evictionOrder : OrdMap ℕ N
  nextSeq : ℕ

variable {N : Type} [DecidableEq N]

namespace BanList

def new : BanList N := ⟨∅, OrdMap.empty, 0⟩

variable (l : BanList N)

/-- Whether the entry of a peer satisfies a condition. -/
def entryIs (p : BanEntry → Bool) (peer : ℕ × N) : Bool :=
  (l.entries.lookup peer.2).any p

/-- The entry to remove from a full list: an expired one, else the oldest that is not manual, else
the oldest. -/
def victim (now : ℕ) : Option (ℕ × N) :=
  ((l.evictionOrder.entries.find? (l.entryIs fun e => e.isExpired now)).or
    (l.evictionOrder.entries.find? (l.entryIs fun e => !e.manual))).or l.evictionOrder.first?

variable (peer : N)

/-- Before a peer gets an entry, its old one leaves the order, or room is made. -/
def makeRoom (now : ℕ) : BanList N :=
  match l.entries.lookup peer with
  | some old => { l with evictionOrder := l.evictionOrder.erase old.seq }
  | none =>
    if maxBanListSize ≤ l.entries.size then
      match l.victim now with
      | some (seq, id) =>
        { l with entries := l.entries.erase id, evictionOrder := l.evictionOrder.erase seq }
      | none => l
    else l

variable (reason : String)

/-- Put a ban on the list, and make room for it. -/
def banInner (duration : WithTop ℕ) (manual : Bool) (now : ℕ) : BanList N :=
  let l := l.makeRoom peer now
  { entries := l.entries.insert peer ⟨reason, now + duration, l.nextSeq, manual⟩
    evictionOrder := l.evictionOrder.insert l.nextSeq peer
    nextSeq := l.nextSeq + 1 }

def banManual (now : ℕ) : BanList N :=
  l.banInner peer reason ⊤ true now

def ban (duration : WithTop ℕ) (now : ℕ) :
    BanList N := l.banInner peer reason duration false now

/-- There is a ban, and it has not run out. -/
def isBanned (now : ℕ) : Bool :=
  match l.entries.lookup peer with
  | none => false
  | some e => !e.isExpired now

/-- Lift a ban. -/
def unban : BanList N :=
  match l.entries.lookup peer with
  | some e => { l with
      entries := l.entries.erase peer, evictionOrder := l.evictionOrder.erase e.seq }
  | none => l

/-- Drop the bans that ran out. -/
def evictExpired (now : ℕ) : BanList N :=
  let live := fun (_ : N) (e : BanEntry) => !e.isExpired now
  { l with
    entries := l.entries.retain live
    evictionOrder := (l.entries.rejected live).foldl (fun o e => o.erase e.2.seq) l.evictionOrder }

end BanList

/-! ### The tracker of violations -/

structure ViolationEntry where
  count : ℕ
  lastViolation : ℕ
  banCount : ℕ

/-- The violations of the peers. -/
structure ViolationTracker (N : Type) [DecidableEq N] where
  entries : Table N ViolationEntry
  insertionOrder : List N
  banThreshold : ℕ
  banInitial : ℕ
  banStep : ℕ
  banMax : ℕ
  decayAfter : ℕ

/-- The longest duration, in nanoseconds. -/
def durationMax : ℕ := (2 ^ 64 - 1) * 10 ^ 9 + 999999999

namespace ViolationTracker

/-- The first in the queue that is still tracked goes, with the ghosts before it. -/
def popOldest : List N → Table N ViolationEntry → List N × Table N ViolationEntry
  | [], entries => ([], entries)
  | candidate :: rest, entries =>
    if (entries.lookup candidate).isSome then (rest, entries.erase candidate)
    else popOldest rest entries

variable (t : ViolationTracker N) (peer : N)

def makeRoom : ViolationTracker N :=
  if t.entries.lookup peer = none then
    let (order, entries) :=
      if maxViolationTrackerSize ≤ t.entries.size then popOldest t.insertionOrder t.entries
      else (t.insertionOrder, t.entries)
    { t with entries := entries, insertionOrder := order ++ [peer] }
  else t

/-- The entry of a peer with one more violation. -/
def counted (now : ℕ) : ViolationEntry :=
  let entry := ((t.makeRoom peer).entries.lookup peer).getD ⟨0, now, 0⟩
  let count := if t.decayAfter ≤ now - entry.lastViolation then 0 else entry.count
  { entry with count := count + 1, lastViolation := now }

def banDurationFor (banCount : ℕ) : ℕ :=
  min (min durationMax (t.banInitial + min durationMax (t.banStep * banCount))) t.banMax

/-- The ban that a violation brings about. -/
def issues (now : ℕ) : Option ℕ :=
  let entry := t.counted peer now
  if t.banThreshold ≤ entry.count then some (t.banDurationFor entry.banCount) else none

/-- Count a violation; enough of them are a ban. -/
def record (list : BanList N) (now : ℕ) : ℕ × ViolationTracker N × BanList N :=
  let entry := t.counted peer now
  let room := t.makeRoom peer
  match t.issues peer now with
  | some duration =>
    let entry := { entry with banCount := entry.banCount + 1, count := 0 }
    (0, { room with entries := room.entries.insert peer entry },
      list.ban peer "violation threshold exceeded" duration now)
  | none => (entry.count, { room with entries := room.entries.insert peer entry }, list)

end ViolationTracker

/-! ### Calls -/

/-- A call on the list, or on a tracker that is given the list. -/
inductive BanCall (N : Type) [DecidableEq N]
  | ban (peer : N) (reason : String) (duration : WithTop ℕ)
  | banManual (peer : N) (reason : String)
  | unban (peer : N)
  | evictExpired
  | record (tracker : ViolationTracker N) (peer : N)

namespace BanList

variable {l : BanList N} {c : ℕ × BanCall N} {peer id : N} {e : BanEntry} {now seq : ℕ}

section

variable (l : BanList N) (c : ℕ × BanCall N)

/-- A call at a time. -/
def step : BanList N :=
  match c.2 with
  | .ban peer reason duration => l.ban peer reason duration c.1
  | .banManual peer reason => l.banManual peer reason c.1
  | .unban peer => l.unban peer
  | .evictExpired => l.evictExpired c.1
  | .record tracker peer => (tracker.record peer l c.1).2.2

/-- The peer that a call bans automatically, and until when. -/
def automatic : ℕ × BanCall N → Option (N × WithTop ℕ)
  | (now, .ban peer _ duration) => some (peer, now + duration)
  | (now, .record tracker peer) => (tracker.issues peer now).map fun (d : ℕ) => (peer, now + d)
  | _ => none

/-- An automatic ban is not laid over a ban in force that is manual or ends later. -/
def Mild : Prop :=
  ∀ b ∈ automatic c, ∀ e ∈ l.entries.lookup b.1,
    e.isExpired c.1 = true ∨ (e.manual = false ∧ e.bannedUntil ≤ b.2)

instance (l : BanList N) (c : ℕ × BanCall N) : Decidable (l.Mild c) := by
  unfold Mild
  infer_instance

/-- A call removes the entry of a peer though it is neither an `unban` of it nor a sweep. -/
def RemovedAtCapacity (peer : N) : Prop :=
  c.2 ≠ .unban peer ∧ c.2 ≠ .evictExpired ∧
    (l.entries.lookup peer).isSome ∧ (l.step c).entries.lookup peer = none

/-- The list is full of manual bans in force. -/
def OnlyManual (now : ℕ) : Prop :=
  maxBanListSize ≤ l.entries.size ∧
    l.entries.All fun _ e => e.manual = true ∧ e.isExpired now = false

end

/-! ### The books -/

/-- **The books of the list.** -/
structure Sound (l : BanList N) : Prop where
  listed : ∀ seq id, (seq, id) ∈ l.evictionOrder.entries ↔
    ∃ e, l.entries.lookup id = some e ∧ e.seq = seq
  numbered : l.entries.All fun _ e => e.seq < l.nextSeq
  size : l.entries.size ≤ maxBanListSize
  permanent : l.entries.All fun _ e => e.manual = true → e.bannedUntil = ⊤

theorem sound_new : Sound (new : BanList N) where
  listed := by
    simp [new, OrdMap.empty]
  numbered := Table.All.empty
  size := Nat.zero_le _
  permanent := Table.All.empty

theorem entryIs_of_lookup (h : l.entries.lookup id = some e) (p : BanEntry → Bool) (seq : ℕ) :
    l.entryIs p (seq, id) = p e := by
  rw [entryIs, h, any_some]

section

variable (h : Sound l)

include h

/-- An entry that no `find?` over the order finds does not satisfy the condition. -/
theorem Sound.of_find?_eq_none {p : BanEntry → Bool}
    (hfind : l.evictionOrder.entries.find? (l.entryIs p) = none)
    (he : l.entries.lookup id = some e) : p e = false := by
  have hnot := find?_eq_none.mp hfind (e.seq, id) ((h.listed _ _).mpr ⟨e, he, rfl⟩)
  rwa [entryIs_of_lookup he, Bool.not_eq_true] at hnot

/-- **The victim**: it is expired, or nothing is and it is the oldest ban that is not manual, or
nothing is and all bans are manual. -/
theorem Sound.victim_spec (hv : l.victim now = some (seq, id)) :
    ∃ e, l.entries.lookup id = some e ∧ e.seq = seq ∧
      (e.isExpired now = true ∨
        (l.entries.All fun _ f => f.isExpired now = false) ∧
          ((e.manual = false ∧ l.entries.All fun _ f => f.manual = false → e.seq ≤ f.seq) ∨
            l.entries.All fun _ f => f.manual = true)) := by
  have hmem : (seq, id) ∈ l.evictionOrder.entries := by
    rcases or_eq_some_iff.mp hv with hv | ⟨-, hv⟩
    · rcases or_eq_some_iff.mp hv with hv | ⟨-, hv⟩
      · exact mem_of_find?_eq_some hv
      · exact mem_of_find?_eq_some hv
    · exact mem_of_mem_head? hv
  obtain ⟨e, he, hseq⟩ := (h.listed seq id).mp hmem
  refine ⟨e, he, hseq, ?_⟩
  rcases hexp : l.evictionOrder.entries.find? (l.entryIs fun e => e.isExpired now) with _ | first
  · right
    refine ⟨fun _ f hf => h.of_find?_eq_none hexp hf, ?_⟩
    rw [victim, hexp] at hv
    rcases hman : l.evictionOrder.entries.find? (l.entryIs fun e => !e.manual) with _ | first
    · right
      intro _ f hf
      simpa using h.of_find?_eq_none hman hf
    · left
      rw [hman] at hv
      cases hv
      have hmanual := find?_some hman
      rw [entryIs_of_lookup he, Bool.not_eq_true'] at hmanual
      refine ⟨hmanual, fun id' f hf hauto => ?_⟩
      -- whatever stands before the first that is not manual in the order is manual
      obtain ⟨-, before, after, hsplit, hbefore⟩ := find?_eq_some_iff_append.mp hman
      have hf' := (h.listed f.seq id').mpr ⟨f, hf, rfl⟩
      have hsorted := l.evictionOrder.sorted
      rw [hsplit] at hf' hsorted
      rcases mem_append.mp hf' with hin | hin
      · have := hbefore _ hin
        rw [entryIs_of_lookup hf, hauto] at this
        cases this
      · rcases mem_cons.mp hin with heq | hin
        · exact hseq.trans_le (le_of_eq (congrArg Prod.fst heq).symm)
        · obtain ⟨-, hcons, -⟩ := pairwise_append.mp hsorted
          exact hseq.trans_le (le_of_lt (rel_of_pairwise_cons hcons hin))
  · left
    rw [victim, hexp] at hv
    cases hv
    have hexpired := find?_some hexp
    rwa [entryIs_of_lookup he] at hexpired

/-- The order without the entry of a peer. -/
theorem Sound.mem_erase_seq (he : l.entries.lookup peer = some e) :
    (seq, id) ∈ (l.evictionOrder.erase e.seq).entries ↔
      id ≠ peer ∧ ∃ f, l.entries.lookup id = some f ∧ f.seq = seq := by
  rw [OrdMap.mem_erase, h.listed, and_comm]
  refine and_congr_left fun hf => not_congr ⟨?_, ?_⟩
  · rintro rfl
    -- one number stands for one peer
    exact congrArg Prod.snd (OrdMap.eq_of_key_eq ((h.listed e.seq id).mpr hf)
      ((h.listed e.seq peer).mpr ⟨e, he, rfl⟩) rfl)
  · rintro rfl
    obtain ⟨f, hf, hseq⟩ := hf
    rw [← hseq, some.inj (hf.symm.trans he)]

theorem Sound.erase (he : l.entries.lookup peer = some e) :
    Sound { l with
      entries := l.entries.erase peer, evictionOrder := l.evictionOrder.erase e.seq } where
  listed := by
    intro seq id
    rw [h.mem_erase_seq he]
    constructor
    · rintro ⟨hne, f, hf, hseq⟩
      exact ⟨f, (lookup_erase_ne hne).trans hf, hseq⟩
    · rintro ⟨f, hf, hseq⟩
      obtain ⟨hne, hf⟩ := lookup_erase_eq_some hf
      exact ⟨hne, f, hf, hseq⟩
  numbered := h.numbered.erase peer
  size := by
    have := size_erase_of_lookup_eq_some he
    have := h.size
    dsimp only
    omega
  permanent := h.permanent.erase peer

/-- **What room is made of**: the peer's old entry leaves the order, or there is room, or the
victim goes. -/
theorem Sound.makeRoom_cases (peer : N) (now : ℕ) :
    (∃ old, l.entries.lookup peer = some old ∧
      l.makeRoom peer now = { l with evictionOrder := l.evictionOrder.erase old.seq }) ∨
    (l.entries.lookup peer = none ∧ l.entries.size < maxBanListSize ∧ l.makeRoom peer now = l) ∨
    (l.entries.lookup peer = none ∧ maxBanListSize ≤ l.entries.size ∧
      ∃ id e, l.victim now = some (e.seq, id) ∧ l.entries.lookup id = some e ∧
        l.makeRoom peer now = { l with
          entries := l.entries.erase id, evictionOrder := l.evictionOrder.erase e.seq }) := by
  rw [makeRoom]
  rcases hold : l.entries.lookup peer with _ | old
  · right
    rcases lt_or_ge l.entries.size maxBanListSize with hroom | hfull
    · left
      exact ⟨rfl, hroom, if_neg (not_le.mpr hroom)⟩
    · right
      refine ⟨rfl, hfull, ?_⟩
      rw [if_pos hfull]
      rcases hv : l.victim now with _ | ⟨seq, id⟩
      · -- a full list has an entry, and the order lists it
        exfalso
        rw [victim, or_eq_none_iff, OrdMap.first?, head?_eq_none_iff] at hv
        have hkeys : l.entries.keys ≠ [] := by
          intro hnil
          rw [size_eq_length_keys, hnil] at hfull
          simp [maxBanListSize] at hfull
        obtain ⟨id, hid⟩ := exists_mem_of_ne_nil _ hkeys
        obtain ⟨e, he⟩ := mem_keys_iff.mp hid
        have hmem := (h.listed e.seq id).mpr ⟨e, he, rfl⟩
        rw [hv.2] at hmem
        exact not_mem_nil hmem
      · obtain ⟨e, he, rfl, -⟩ := h.victim_spec hv
        exact ⟨id, e, rfl, he, rfl⟩
  · left
    exact ⟨old, rfl, rfl⟩

/-- **A ban keeps the books.** -/
theorem Sound.banInner (peer : N) (reason : String) {duration : WithTop ℕ} {manual : Bool}
    (hperm : manual = true → duration = ⊤) (now : ℕ) :
    Sound (l.banInner peer reason duration manual now) := by
  -- the list that the entry is put into: its order lists the other peers
  obtain ⟨r, hr⟩ : ∃ r, r = l.makeRoom peer now := ⟨_, rfl⟩
  have hready : (∀ seq id, (seq, id) ∈ r.evictionOrder.entries ↔
        id ≠ peer ∧ ∃ f, r.entries.lookup id = some f ∧ f.seq = seq) ∧
      (r.entries.All fun _ f => f.seq < r.nextSeq) ∧
      (r.entries.All fun _ f => f.manual = true → f.bannedUntil = ⊤) ∧
      ∀ e, Table.size (r.entries.insert peer e) ≤ maxBanListSize := by
    have hothers : ∀ {r : BanList N}, Sound r → r.entries.lookup peer = none → ∀ seq id,
        (seq, id) ∈ r.evictionOrder.entries ↔
          id ≠ peer ∧ ∃ f, r.entries.lookup id = some f ∧ f.seq = seq := by
      intro r hsound hnone seq id
      rw [hsound.listed]
      refine ⟨fun hf => ⟨?_, hf⟩, fun hf => hf.2⟩
      rintro rfl
      obtain ⟨f, hf, -⟩ := hf
      cases hnone.symm.trans hf
    rcases h.makeRoom_cases peer now with
      ⟨old, hold, heq⟩ | ⟨hnone, hroom, heq⟩ | ⟨hnone, hfull, id, e, -, he, heq⟩
    · rw [hr, heq]
      refine ⟨fun seq id => h.mem_erase_seq hold, h.numbered, h.permanent, fun e => ?_⟩
      exact (size_insert_of_lookup_eq_some hold e).trans_le h.size
    · rw [hr, heq]
      refine ⟨hothers h hnone, h.numbered, h.permanent, fun e => ?_⟩
      exact (size_insert_of_lookup_eq_none hnone e).trans_le hroom
    · rw [hr, heq]
      have hsound := h.erase he
      have hgone : (l.entries.erase id).lookup peer = none := by
        rw [lookup_erase_eq_ite, hnone, ite_self]
      refine ⟨hothers hsound hgone, hsound.numbered, hsound.permanent, fun f => ?_⟩
      have hsize := size_erase_of_lookup_eq_some he
      have hbound := h.size
      rw [size_insert_of_lookup_eq_none hgone]
      omega
  obtain ⟨hlisted, hnumbered, hpermanent, hsize⟩ := hready
  rw [BanList.banInner, ← hr]
  refine ⟨fun seq id => ?_, ?_, hsize _, hpermanent.insert fun hm => ?_⟩
  · rw [OrdMap.mem_insert, hlisted, Prod.mk.injEq, lookup_insert_eq_ite]
    rcases eq_or_ne id peer with rfl | hne
    · simp [eq_comm]
    · simp only [hne, and_false, ne_eq, not_false_eq_true, true_and, if_false, false_or,
        and_iff_left_iff_imp]
      rintro ⟨f, hf, rfl⟩
      exact ne_of_lt (hnumbered id f hf)
  · exact (hnumbered.imp fun _ f hf => Nat.lt_succ_of_lt hf).insert (Nat.lt_succ_self _)
  · rw [hperm hm]
    exact WithTop.add_top _

theorem Sound.unban (peer : N) : Sound (l.unban peer) := by
  rw [BanList.unban]
  split
  · exact h.erase (by assumption)
  · exact h

end

omit [DecidableEq N] in
theorem mem_foldl_erase {es : List (N × BanEntry)} {o : OrdMap ℕ N} :
    (seq, id) ∈ (es.foldl (fun o e => o.erase e.2.seq) o).entries ↔
      (seq, id) ∈ o.entries ∧ ∀ e ∈ es, seq ≠ e.2.seq := by
  induction es generalizing o with
  | nil => simp
  | cons e es ih => rw [foldl_cons, ih, OrdMap.mem_erase, forall_mem_cons, and_assoc]

theorem lookup_evictExpired :
    (l.evictExpired now).entries.lookup id =
      (l.entries.lookup id).filter fun e => !e.isExpired now := lookup_retain _ _ _

theorem Sound.evictExpired (h : Sound l) (now : ℕ) : Sound (l.evictExpired now) where
  listed := by
    intro seq id
    rw [lookup_evictExpired, BanList.evictExpired, mem_foldl_erase, h.listed]
    constructor
    · rintro ⟨⟨e, he, rfl⟩, hlive⟩
      refine ⟨e, filter_eq_some_iff.mpr ⟨he, ?_⟩, rfl⟩
      by_contra hexp
      exact hlive (id, e) (mem_rejected.mpr ⟨he, Bool.not_eq_true _ ▸ hexp⟩) rfl
    · rintro ⟨e, he, rfl⟩
      obtain ⟨he, hlive⟩ := filter_eq_some_iff.mp he
      refine ⟨⟨e, he, rfl⟩, ?_⟩
      rintro ⟨id', f⟩ hf heq
      obtain ⟨hf, hexp⟩ := mem_rejected.mp hf
      -- the number is the peer's own
      obtain rfl : id = id' := congrArg Prod.snd (OrdMap.eq_of_key_eq
        ((h.listed e.seq id).mpr ⟨e, he, rfl⟩) ((h.listed f.seq id').mpr ⟨f, hf, rfl⟩) heq)
      rw [← some.inj (he.symm.trans hf), hlive] at hexp
      cases hexp
  numbered := fun id e he => h.numbered id e
    (filter_eq_some_iff.mp (lookup_evictExpired.symm.trans he)).1
  size := by
    refine (size_le_of_lookup fun id e he => ?_).trans h.size
    exact (filter_eq_some_iff.mp (lookup_evictExpired.symm.trans he)).1
  permanent := fun id e he => h.permanent id e
    (filter_eq_some_iff.mp (lookup_evictExpired.symm.trans he)).1

/-! ### Steps -/

variable (l c) in
/-- **What a call does**: it bans a peer, by hand or automatically, or lifts a ban, or sweeps, or
leaves the list. -/
theorem step_cases :
    (∃ peer reason, ∃ duration : WithTop ℕ, ∃ manual,
      (manual = true ∧ duration = ⊤ ∨ manual = false ∧ automatic c = some (peer, c.1 + duration)) ∧
      l.step c = l.banInner peer reason duration manual c.1) ∨
    (∃ peer, c.2 = .unban peer ∧ l.step c = l.unban peer) ∨
    (c.2 = .evictExpired ∧ l.step c = l.evictExpired c.1) ∨ l.step c = l := by
  rcases c with ⟨now, call⟩
  cases call with
  | ban peer reason duration => exact .inl ⟨peer, reason, duration, false, .inr ⟨rfl, rfl⟩, rfl⟩
  | banManual peer reason => exact .inl ⟨peer, reason, ⊤, true, .inl ⟨rfl, rfl⟩, rfl⟩
  | unban peer => exact .inr (.inl ⟨peer, rfl, rfl⟩)
  | evictExpired => exact .inr (.inr (.inl ⟨rfl, rfl⟩))
  | record tracker peer =>
    rcases hissues : tracker.issues peer now with _ | duration
    · refine .inr (.inr (.inr ?_))
      simp only [step, ViolationTracker.record, hissues]
    · refine .inl ⟨peer, "violation threshold exceeded", duration, false, .inr ⟨rfl, ?_⟩, ?_⟩
      · rw [automatic, hissues, map_some]
      · simp only [step, ViolationTracker.record, hissues]
        rfl

theorem Sound.step (h : Sound l) (c : ℕ × BanCall N) : Sound (l.step c) := by
  rcases step_cases l c with
    ⟨peer, reason, duration, manual, hcase, heq⟩ | ⟨peer, -, heq⟩ | ⟨-, heq⟩ | heq
  · rw [heq]
    refine h.banInner peer reason (fun hm => ?_) c.1
    rcases hcase with ⟨-, htop⟩ | ⟨hauto, -⟩
    · exact htop
    · cases hm.symm.trans hauto
  · rw [heq]
    exact h.unban peer
  · rw [heq]
    exact h.evictExpired c.1
  · rwa [heq]

theorem lookup_banInner_of_ne {reason : String} {duration : WithTop ℕ} {manual : Bool}
    (hne : id ≠ peer) :
    (l.banInner peer reason duration manual now).entries.lookup id =
      (l.makeRoom peer now).entries.lookup id := lookup_insert_ne hne

/-- Room is made of no entry but the victim's. -/
theorem Sound.lookup_makeRoom (h : Sound l) (peer : N) (he : l.entries.lookup id = some e) :
    (l.makeRoom peer now).entries.lookup id = some e ∨
      ((l.makeRoom peer now).entries.lookup id = none ∧ maxBanListSize ≤ l.entries.size ∧
        l.victim now = some (e.seq, id)) := by
  rcases h.makeRoom_cases peer now with
    ⟨old, -, heq⟩ | ⟨-, -, heq⟩ | ⟨-, hfull, id', e', hv, he', heq⟩
  · rw [heq]
    exact .inl he
  · rw [heq]
    exact .inl he
  · rw [heq, lookup_erase_eq_ite]
    rcases eq_or_ne id id' with rfl | hne
    · obtain rfl := some.inj (he.symm.trans he')
      exact .inr ⟨if_pos rfl, hfull, hv⟩
    · rw [if_neg hne]
      exact .inl he

/-- **What is removed for want of room**: an expired entry, or else the oldest that is not manual,
or else a manual one from a list full of them. -/
theorem Sound.of_removedAtCapacity (h : Sound l) (hrem : l.RemovedAtCapacity c id)
    (he : l.entries.lookup id = some e) (hlive : e.isExpired c.1 = false) :
    maxBanListSize ≤ l.entries.size ∧ (l.entries.All fun _ f => f.isExpired c.1 = false) ∧
      (l.OnlyManual c.1 ∨
        (e.manual = false ∧ l.entries.All fun _ f => f.manual = false → e.seq ≤ f.seq)) := by
  obtain ⟨hunban, hsweep, -, hgone⟩ := hrem
  rcases step_cases l c with
    ⟨peer, reason, duration, manual, -, heq⟩ | ⟨peer, hcall, heq⟩ | ⟨hcall, -⟩ | heq
  · rw [heq] at hgone
    have hne : id ≠ peer := by
      rintro rfl
      rw [BanList.banInner, lookup_insert] at hgone
      cases hgone
    rw [lookup_banInner_of_ne hne] at hgone
    rcases h.lookup_makeRoom peer he with hkept | ⟨-, hfull, hv⟩
    · cases hgone.symm.trans hkept
    obtain ⟨f, hf, -, hcases⟩ := h.victim_spec hv
    obtain rfl := some.inj (he.symm.trans hf)
    rcases hcases with hexp | ⟨hall, hold | hmanual⟩
    · cases hlive.symm.trans hexp
    · exact ⟨hfull, hall, .inr hold⟩
    · exact ⟨hfull, hall, .inl ⟨hfull, fun i f hf => ⟨hmanual i f hf, hall i f hf⟩⟩⟩
  · have hne : id ≠ peer := by
      rintro rfl
      exact hunban hcall
    rw [heq, BanList.unban] at hgone
    split at hgone
    · exact absurd (((lookup_erase_ne hne).trans he).symm.trans hgone) (by simp)
    · cases he.symm.trans hgone
  · exact absurd hcall hsweep
  · rw [heq] at hgone
    cases he.symm.trans hgone

/-- **One call leaves a ban in force**, if it neither lifts it nor needs its room nor lays a milder
one over it. -/
theorem Sound.kept (h : Sound l) (hmild : l.Mild c) (hunban : c.2 ≠ .unban id)
    (hroom : ¬l.RemovedAtCapacity c id) (he : l.entries.lookup id = some e)
    (hlive : e.isExpired c.1 = false) :
    ∃ e', (l.step c).entries.lookup id = some e' ∧ e.bannedUntil ≤ e'.bannedUntil ∧
      (e.manual = true → e'.manual = true) := by
  by_cases hsweep : c.2 = .evictExpired
  · refine ⟨e, ?_, le_rfl, fun hm => hm⟩
    rw [BanList.step, hsweep]
    exact lookup_evictExpired.trans (by rw [he]; simp [hlive])
  obtain ⟨f, hf⟩ : ∃ f, (l.step c).entries.lookup id = some f :=
    ne_none_iff_exists'.mp fun hnone => hroom ⟨hunban, hsweep, he ▸ rfl, hnone⟩
  rcases eq_or_ne f e with rfl | hfe
  · exact ⟨f, hf, le_rfl, fun hm => hm⟩
  rcases step_cases l c with
    ⟨peer, reason, duration, manual, hcase, heq⟩ | ⟨peer, hcall, heq⟩ | ⟨hcall, -⟩ | heq
  · rcases eq_or_ne id peer with rfl | hne
    · rw [heq]
      refine ⟨_, lookup_insert _, ?_⟩
      rcases hcase with ⟨rfl, rfl⟩ | ⟨rfl, hauto⟩
      · exact ⟨le_top.trans_eq (WithTop.add_top _).symm, fun _ => rfl⟩
      · rcases hmild _ hauto e he with hexp | ⟨hm, hle⟩
        · cases hlive.symm.trans hexp
        · exact ⟨hle, fun hm' => absurd (hm.symm.trans hm') (by decide)⟩
    · refine absurd ?_ hfe
      rw [heq, lookup_banInner_of_ne hne] at hf
      rcases h.lookup_makeRoom peer he with hkept | ⟨hnone, -⟩
      · exact some.inj (hf.symm.trans hkept)
      · cases hnone.symm.trans hf
  · refine absurd ?_ hfe
    rw [heq, BanList.unban] at hf
    split at hf
    · exact some.inj ((lookup_erase_eq_some hf).2.symm.trans he)
    · exact some.inj (hf.symm.trans he)
  · exact absurd hcall hsweep
  · exact absurd (some.inj ((heq ▸ hf).symm.trans he)) hfe

/-- **Bans in force along a run.** -/
theorem Sound.kept_run (h : Sound l) {calls : List (ℕ × BanCall N)}
    (hmild : Run.Along BanList.step Mild l calls)
    (hquiet : Run.Along BanList.step
      (fun l c => c.2 ≠ .unban id ∧ ¬l.RemovedAtCapacity c id) l calls)
    (he : l.entries.lookup id = some e) (hlive : ∀ c ∈ calls, e.isExpired c.1 = false) :
    ∃ e', (calls.foldl BanList.step l).entries.lookup id = some e' ∧
      e.bannedUntil ≤ e'.bannedUntil ∧ (e.manual = true → e'.manual = true) := by
  have hall := (hmild.and hquiet).and (.of_forall hlive)
  refine (Run.invariant_along (P := fun l => Sound l ∧ ∃ e', l.entries.lookup id = some e' ∧
    e.bannedUntil ≤ e'.bannedUntil ∧ (e.manual = true → e'.manual = true)) ?_
    ⟨h, e, he, le_rfl, fun hm => hm⟩ hall).2
  rintro l c ⟨⟨hmild, hunban, hroom⟩, hlive⟩ ⟨hsound, e', he', hle, hman⟩
  have hlive' : e'.isExpired c.1 = false :=
    decide_eq_false fun hexp => of_decide_eq_false hlive (hle.trans hexp)
  obtain ⟨f, hf, hle', hman'⟩ := hsound.kept hmild hunban hroom he' hlive'
  exact ⟨hsound.step c, f, hf, hle.trans hle', fun hm => hman' (hman hm)⟩

theorem isBanned_of_lookup (he : l.entries.lookup id = some e) (hlive : e.isExpired now = false) :
    l.isBanned id now = true := by
  rw [isBanned, he]
  exact congrArg not hlive

theorem not_isExpired_top (h : e.bannedUntil = ⊤) (now : ℕ) : e.isExpired now = false := by
  refine decide_eq_false ?_
  rw [h]
  simp

/-- **Bans stay in force.** In every run the order lists the entries by their numbers and there are
no more of them than there may be. A ban that is removed for want of room while in force is, in a
full list without expired bans, the oldest that is not manual, or all bans are manual. In every run
that lays no automatic ban over one in force that is manual or ends later, a manual ban stays, and
stays manual, until it is lifted or the list is full of manual bans, and any ban lasts to its end
unless it is lifted or removed for want of room. -/
theorem bans_stay (calls : List (ℕ × BanCall N)) :
    let l : BanList N := calls.foldl step new
    (∀ seq id, (seq, id) ∈ l.evictionOrder.entries ↔
      ∃ e, l.entries.lookup id = some e ∧ e.seq = seq) ∧
    l.entries.size ≤ maxBanListSize ∧
    (∀ c id e, l.RemovedAtCapacity c id → l.entries.lookup id = some e →
      e.isExpired c.1 = false →
      maxBanListSize ≤ l.entries.size ∧ (l.entries.All fun _ f => f.isExpired c.1 = false) ∧
        (l.OnlyManual c.1 ∨
          (e.manual = false ∧ l.entries.All fun _ f => f.manual = false → e.seq ≤ f.seq))) ∧
    (∀ id reason start later, let s := l.step (start, .banManual id reason)
      Run.Along step Mild s later →
      Run.Along step (fun l c => c.2 ≠ .unban id ∧ ¬l.OnlyManual c.1) s later →
      ∃ e, (later.foldl step s).entries.lookup id = some e ∧ e.manual = true ∧
        ∀ now, (later.foldl step s).isBanned id now = true) ∧
    (∀ id e later, l.entries.lookup id = some e → Run.Along step Mild l later →
      Run.Along step (fun l c => c.2 ≠ .unban id ∧ ¬l.RemovedAtCapacity c id) l later →
      ∀ now, (∀ c ∈ later, c.1 ≤ now) → e.isExpired now = false →
        (later.foldl step l).isBanned id now = true ∧
          ∃ e', (later.foldl step l).entries.lookup id = some e' ∧
            e.bannedUntil ≤ e'.bannedUntil) := by
  intro l
  have hsound : Sound l := Run.invariant (fun l c h => h.step c) sound_new calls
  refine ⟨hsound.listed, hsound.size, fun c id e hrem he hlive =>
    hsound.of_removedAtCapacity hrem he hlive, ?_, ?_⟩
  · intro id reason start later s hmild hquiet
    -- a manual ban that is removed for want of room is removed from a list full of them
    have hinv := Run.invariant_along (P := fun l => Sound l ∧
      ∃ e, l.entries.lookup id = some e ∧ e.manual = true) (s := s)
      (C := fun l c => l.Mild c ∧ c.2 ≠ .unban id ∧ ¬l.OnlyManual c.1) ?_
      ⟨hsound.step _, _, lookup_insert _, rfl⟩ (hmild.and hquiet)
    · obtain ⟨hsound', e, he, hman⟩ := hinv
      have htop := hsound'.permanent id e he hman
      exact ⟨e, he, hman, fun now => isBanned_of_lookup he (not_isExpired_top htop now)⟩
    · rintro l c ⟨hmild, hunban, honly⟩ ⟨hsound, e, he, hman⟩
      have hlive := not_isExpired_top (hsound.permanent id e he hman) c.1
      have hroom : ¬l.RemovedAtCapacity c id := by
        intro hrem
        rcases (hsound.of_removedAtCapacity hrem he hlive).2.2 with hfull | ⟨hauto, -⟩
        · exact honly hfull
        · cases hman.symm.trans hauto
      obtain ⟨f, hf, -, hman'⟩ := hsound.kept hmild hunban hroom he hlive
      exact ⟨hsound.step c, f, hf, hman' hman⟩
  · intro id e later he hmild hquiet now htimes hlive
    have hends : ∀ c ∈ later, e.isExpired c.1 = false := by
      intro c hc
      refine decide_eq_false fun hexp => of_decide_eq_false hlive (hexp.trans ?_)
      exact WithTop.coe_le_coe.mpr (htimes c hc)
    obtain ⟨e', he', hle, -⟩ := hsound.kept_run hmild hquiet he hends
    refine ⟨isBanned_of_lookup he' ?_, e', he', hle⟩
    exact decide_eq_false fun hexp => of_decide_eq_false hlive (hle.trans hexp)

/-- A tracker that bans at the first violation, for five units of time. -/
def sampleTracker : ViolationTracker ℕ := ⟨∅, [], 1, 5, 0, 5, 10⟩

/-- After the operator's ban of peer 1: violations of another peer, and a sweep. -/
def sampleCalls : List (ℕ × BanCall ℕ) :=
  [(1, .record sampleTracker 2), (2, .ban 2 "flood" 60), (70, .evictExpired)]

theorem bans_stay_sample :
    let s := (new : BanList ℕ).step (0, .banManual 1 "operator")
    Run.Along step Mild s sampleCalls ∧ (sampleCalls.foldl step s).isBanned 1 100 = true := by
  have hmild : Run.Along step Mild ((new : BanList ℕ).step (0, .banManual 1 "operator"))
      sampleCalls := by decide +kernel
  refine ⟨hmild, ?_⟩
  obtain ⟨-, -, -, hmanual, -⟩ := bans_stay (N := ℕ) []
  have hroom : ∀ (l : BanList ℕ) (now : ℕ), l.entries.size < maxBanListSize → ¬l.OnlyManual now :=
    fun l now hlt honly => absurd honly.1 (not_le.mpr hlt)
  obtain ⟨e, -, -, hbanned⟩ := hmanual 1 "operator" 0 sampleCalls hmild
    ⟨⟨nofun, hroom _ _ (by decide +kernel)⟩, ⟨nofun, hroom _ _ (by decide +kernel)⟩,
      ⟨nofun, hroom _ _ (by decide +kernel)⟩, trivial⟩
  exact hbanned 100

/-- **A manual ban replaced**: one violation of a peer that the operator has banned makes its ban
an automatic one, and it ends with that. -/
theorem manual_ban_replaced :
    let s := (new : BanList ℕ).step (0, .banManual 1 "operator")
    let s' := s.step (1, .record sampleTracker 1)
    (s.entries.lookup 1).map BanEntry.manual = some true ∧
    (s'.entries.lookup 1).map (fun e => (e.manual, e.bannedUntil)) = some (false, 6) ∧
    s.isBanned 1 6 = true ∧ s'.isBanned 1 6 = false := by
  decide +kernel

end BanList

end VeilNetwork.Abuse
