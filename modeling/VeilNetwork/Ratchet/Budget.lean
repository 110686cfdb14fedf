import Mathlib.Algebra.BigOperators.Group.List.Basic
import Mathlib.Data.List.MinMax
import Mathlib.Data.Prod.Lex
import VeilNetwork.Lib.Table
import VeilNetwork.Ratchet.Tree

/-!
# The budget for skipped keys

A store of conversations bounds the keys that are kept for messages that did not arrive, over all
of them together. When there are too many, keys are dropped from the conversations nobody has
vouched for, beginning with the one that keeps most: first those of earlier epochs, and if there
are none, all of them. The sweep ends, it drops no key of a conversation that was proven, and it
says exactly how many keys went (`Inner.budget_enforced`).

Of a session only the fields that are read here are modelled, and of a conversation only its
sessions and what proves it. The number of rounds is bounded by fuel, and any fuel above the
number of keys is enough.
-/

namespace VeilNetwork.Ratchet

open List Option OrdMap Table

variable {Pk K : Type}

/-! ### One session -/

/-- What `ratchet.rs` reads of a session to count and drop its skipped keys. -/
structure RatchetCore (Pk K : Type) where
  dhPkRemote : Option Pk
  recvTree : Bool
  nr : ℕ
  /-- Message keys by peer ratchet key and index. -/
  skipped : Table (Pk × ℕ) K
  /-- Receiving chains that are trees, by peer ratchet key. -/
  treeHoles : Table Pk (Holes K)

namespace RatchetCore

variable [DecidableEq Pk] (child : K → Bool → K) (c : RatchetCore Pk K)

/-- The nodes of a chain that stand for messages missed: of the current one only those behind
the highest index received. -/
def banked (pk : Pk) (holes : Holes K) : ℕ :=
  if c.recvTree && decide (some pk = c.dhPkRemote) then holes.lenBelow c.nr else holes.len

def treeBanked : ℕ := c.treeHoles.sum c.banked

def skippedLen : ℕ := c.skipped.size + c.treeBanked

/-- Drop every key, but not the path to what is still to come. -/
def clearSkipped : ℕ × RatchetCore Pk K :=
  let current := c.dhPkRemote.filter fun _ => c.recvTree
  let treeHoles := c.treeHoles.retain fun pk _ => decide (some pk = current)
  let treeHoles :=
    match current with
    | none => treeHoles
    | some pk => treeHoles.modify pk fun holes => holes.retain child c.nr (2 ^ treeDepth)
  (c.skippedLen, { c with skipped := ∅, treeHoles })

/-- Drop the keys of every epoch but the one now being received. -/
def pruneSkippedToCurrentEpoch : ℕ × RatchetCore Pk K :=
  let before := c.skippedLen
  let c :=
    match c.dhPkRemote with
    | some cur =>
      { c with
        skipped := c.skipped.retain fun key _ => decide (key.1 = cur)
        treeHoles := c.treeHoles.retain fun pk _ => decide (pk = cur) }
    | none => { c with skipped := ∅, treeHoles := ∅ }
  (before - c.skippedLen, c)

/-- Older epochs first, and all of them if that drops nothing. -/
def reclaim : ℕ × RatchetCore Pk K :=
  let (dropped, c) := c.pruneSkippedToCurrentEpoch
  if dropped = 0 then c.clearSkipped child else (dropped, c)

end RatchetCore

/-! ### Conversations -/

/-- A conversation, with the session of its crossed alternate. -/
structure Entry (Pk K : Type) where
  session : RatchetCore Pk K
  crossedReceive : Option (RatchetCore Pk K)
  authenticatedUntil : ℕ
  provenBefore : Bool

namespace Entry

variable [DecidableEq Pk] (child : K → Bool → K)

def everProven (e : Entry Pk K) : Bool := decide (e.authenticatedUntil ≠ 0) || e.provenBefore

def droppable (e : Entry Pk K) : Bool := !e.everProven

def skippedLen (e : Entry Pk K) : ℕ :=
  e.session.skippedLen + e.crossedReceive.elim 0 RatchetCore.skippedLen

/-- Both sessions of a conversation. -/
def reclaim (e : Entry Pk K) : ℕ × Entry Pk K :=
  let (dropped, session) := e.session.reclaim child
  match e.crossedReceive with
  | none => (dropped, { e with session })
  | some other =>
    let (alternate, other) := other.reclaim child
    (dropped + alternate, { e with session, crossedReceive := some other })

end Entry

/-- The store. -/
structure Inner (κ Pk K : Type) [LinearOrder κ] where
  entries : OrdMap κ (Entry Pk K)
  version : UInt64
  dirty : OrdMap κ UInt64

namespace Inner

variable {κ Pk K : Type} [LinearOrder κ] [DecidableEq Pk] (child : K → Bool → K)

def commitChange (s : Inner κ Pk K) (key : κ) : Inner κ Pk K :=
  { s with version := s.version + 1, dirty := s.dirty.insert key (s.version + 1) }

/-- The keys of all conversations. -/
def total (s : Inner κ Pk K) : ℕ := (s.entries.entries.map fun e => e.2.skippedLen).sum

/-- The conversation to sweep next: `max_by_key` over the number of keys, then the key. -/
def victim (s : Inner κ Pk K) : Option κ :=
  ((s.entries.entries.filter fun e => e.2.droppable && decide (0 < e.2.skippedLen)).argmax
    fun e => toLex (e.2.skippedLen, e.1)).map Prod.fst

/-- The loop, with what there was at first and what is gone. -/
def sweep (budget total : ℕ) : ℕ → ℕ → Inner κ Pk K → Option (ℕ × Inner κ Pk K)
  | 0, _, _ => none
  | fuel + 1, freed, s =>
    match s.victim with
    | none => some (freed, s)
    | some key =>
      match s.entries.get? key with
      | none => some (freed, s)
      | some entry =>
        let (dropped, entry) := entry.reclaim child
        let s := { s with entries := s.entries.insert key entry }
        if dropped = 0 then some (freed, s)
        else
          let freed := freed + dropped
          let s := s.commitChange key
          if total - min freed total ≤ budget then some (freed, s)
          else sweep budget total fuel freed s

/-- Drop keys until the rest fits. -/
def enforceSkippedBudgetTo (fuel : ℕ) (s : Inner κ Pk K) (budget : ℕ) :
    Option (ℕ × Inner κ Pk K) :=
  if s.total ≤ budget then some (0, s) else sweep child budget s.total fuel 0 s

end Inner

/-! ### What is dropped -/

namespace Holes

variable {K : Type} {child : K → Bool → K} {lo hi : ℕ} {m : OrdMap ℕ (ℕ × K)}

theorem le_of_mem_splitInto {r s : ℕ} {k : K} {e : ℕ × ℕ × K}
    (he : e ∈ (splitInto child lo hi r s k m).entries) : e ∈ m.entries ∨ lo ≤ e.1 := by
  have hone : span treeDepth = 1 := by decide
  induction r generalizing s k m with
  | zero =>
    rw [splitInto] at he
    split at he
    · exact .inl he
    next hin =>
      rcases mem_insert.mp he with rfl | ⟨he, -⟩
      · rw [hone] at hin
        exact .inr (by dsimp only; omega)
      · exact .inl he
  | succ r ih =>
    rw [splitInto] at he
    split at he
    · exact .inl he
    · split at he
      next hin =>
        rcases mem_insert.mp he with rfl | ⟨he, -⟩
        · exact .inr hin.1
        · exact .inl he
      · rcases ih he with he | hle
        · exact ih he
        · exact .inr hle

/-- A node that is left where one was looked at is another one, or starts in the range. -/
theorem le_of_mem_retainNode {s : ℕ} {e : ℕ × ℕ × K}
    (he : e ∈ (retainNode child lo hi m s).entries) : e ∈ m.entries ∧ e.1 ≠ s ∨ lo ≤ e.1 := by
  rw [retainNode] at he
  split at he
  next hnone => exact .inl ⟨he, fun heq => get?_eq_none.mp hnone e.2 (heq ▸ he)⟩
  next depth key hget =>
  dsimp only at he
  split at he
  · exact .inl (mem_erase.mp he)
  · split at he
    · exact (le_of_mem_splitInto he).imp_left mem_erase.mp
    next hin =>
      rcases eq_or_ne e.1 s with heq | hne
      · exact .inr (by omega)
      · exact .inl ⟨he, hne⟩

/-- **Nothing is left below the range**, whatever the set was. -/
theorem lenBelow_retain (h : Holes K) (child : K → Bool → K) (lo hi : ℕ) :
    (h.retain child lo hi).lenBelow lo = 0 := by
  -- over the starts still to be looked at
  have hloop (starts : List ℕ) (m : OrdMap ℕ (ℕ × K))
      (hm : ∀ e ∈ m.entries, e.1 ∈ starts ∨ lo ≤ e.1) :
      ∀ e ∈ (starts.foldl (retainNode child lo hi) m).entries, lo ≤ e.1 := by
    induction starts generalizing m with
    | nil => exact fun e he => (hm e he).resolve_left not_mem_nil
    | cons s starts ih =>
      refine ih _ fun e he => ?_
      rcases le_of_mem_retainNode he with ⟨he, hne⟩ | hle
      · rcases hm e he with hmem | hle
        · exact .inl ((mem_cons.mp hmem).resolve_left hne)
        · exact .inr hle
      · exact .inr hle
  have hstarts := hloop h.nodes.keys h.nodes fun e he => .inl (mem_map_of_mem he)
  rw [lenBelow, length_eq_zero_iff, filter_eq_nil_iff]
  intro e he
  obtain ⟨hmem, hlt⟩ := mem_filter.mp he
  exact absurd (of_decide_eq_true hlt) (not_lt.mpr (hstarts e hmem))

end Holes

namespace RatchetCore

variable [DecidableEq Pk]

/-- **Pruning** tells how many keys went. -/
theorem pruneSkippedToCurrentEpoch_spec (c : RatchetCore Pk K) :
    c.pruneSkippedToCurrentEpoch.1 + c.pruneSkippedToCurrentEpoch.2.skippedLen = c.skippedLen := by
  have hsub {α β : Type} [DecidableEq α] (t : Table α β) (p : α → β → Bool) (k : α) (v : β)
      (hv : (t.retain p).lookup k = some v) : t.lookup k = some v := by
    rw [lookup_retain] at hv
    exact (filter_eq_some_iff.mp hv).1
  have hle : c.pruneSkippedToCurrentEpoch.2.skippedLen ≤ c.skippedLen := by
    rw [pruneSkippedToCurrentEpoch]
    split
    · exact add_le_add (size_le_of_lookup (hsub _ _))
        (sum_le_of_lookup c.banked (hsub _ _))
    · exact Nat.zero_le _
  have hfst : c.pruneSkippedToCurrentEpoch.1 =
      c.skippedLen - c.pruneSkippedToCurrentEpoch.2.skippedLen := rfl
  rw [hfst]
  omega

/-- **Clearing** leaves no key. -/
theorem clearSkipped_spec (child : K → Bool → K) (c : RatchetCore Pk K) :
    (c.clearSkipped child).1 = c.skippedLen ∧ (c.clearSkipped child).2.skippedLen = 0 := by
  refine ⟨rfl, ?_⟩
  have hzero : (c.clearSkipped child).2.treeHoles.sum c.banked = 0 := by
    refine sum_eq_zero fun n hn => ?_
    obtain ⟨e, he, rfl⟩ := mem_map.mp hn
    have hlookup := lookup_eq_some_iff.mpr he
    rw [clearSkipped] at hlookup
    split at hlookup
    next hnone =>
      rw [lookup_retain] at hlookup
      have hpk := of_decide_eq_true (filter_eq_some_iff.mp hlookup).2
      rw [hnone] at hpk
      cases hpk
    next pk hcurrent =>
      -- only the current chain is left, cut to what is still to come
      rw [lookup_modify, lookup_retain, lookup_retain] at hlookup
      obtain ⟨hremote, htree⟩ := filter_eq_some_iff.mp hcurrent
      split at hlookup
      next hpk =>
        obtain ⟨holes, -, heq⟩ := map_eq_some_iff.mp hlookup
        rw [banked, htree, hpk, hremote, decide_eq_true rfl, ← heq]
        exact Holes.lenBelow_retain holes child c.nr (2 ^ treeDepth)
      next hpk =>
        have hkept := of_decide_eq_true (filter_eq_some_iff.mp hlookup).2
        rw [hcurrent] at hkept
        exact absurd (some.inj hkept) hpk
  exact (zero_add _).trans hzero

theorem reclaim_spec (child : K → Bool → K) (c : RatchetCore Pk K) :
    (c.reclaim child).1 + (c.reclaim child).2.skippedLen = c.skippedLen ∧
      (0 < c.skippedLen → 0 < (c.reclaim child).1) := by
  have hprune := c.pruneSkippedToCurrentEpoch_spec
  rw [reclaim]
  dsimp only
  split
  next hnone =>
    obtain ⟨hdropped, hleft⟩ := clearSkipped_spec child c.pruneSkippedToCurrentEpoch.2
    rw [hdropped, hleft]
    omega
  next hsome => exact ⟨hprune, fun _ => pos_of_ne_zero hsome⟩

end RatchetCore

theorem Entry.reclaim_spec {Pk K : Type} [DecidableEq Pk] (child : K → Bool → K) (e : Entry Pk K) :
    (e.reclaim child).1 + (e.reclaim child).2.skippedLen = e.skippedLen ∧
      (0 < e.skippedLen → 0 < (e.reclaim child).1) ∧
      (e.reclaim child).2.everProven = e.everProven := by
  obtain ⟨hsession, hpos⟩ := e.session.reclaim_spec child
  rw [reclaim]
  cases hcrossed : e.crossedReceive with
  | none =>
    rw [skippedLen, skippedLen, hcrossed]
    exact ⟨hsession, hpos, rfl⟩
  | some other =>
    obtain ⟨hother, hpos'⟩ := other.reclaim_spec child
    rw [skippedLen, skippedLen, hcrossed]
    dsimp only [elim_some]
    refine ⟨by omega, fun hlen => ?_, rfl⟩
    -- one of the two has a key
    rcases eq_zero_or_pos e.session.skippedLen with hzero | hlen'
    · have := hpos' (by omega)
      omega
    · have := hpos hlen'
      omega

namespace Inner

variable {κ Pk K : Type} [LinearOrder κ] [DecidableEq Pk] {s s' : Inner κ Pk K}

/-- The victim has keys to drop and nobody has vouched for it. -/
theorem victim_eq_some {key : κ} (h : s.victim = some key) :
    ∃ e, s.entries.get? key = some e ∧ e.droppable = true ∧ 0 < e.skippedLen := by
  obtain ⟨⟨k, e⟩, hmax, rfl⟩ := map_eq_some_iff.mp h
  obtain ⟨hmem, hvictim⟩ := mem_filter.mp (argmax_mem hmax)
  rw [Bool.and_eq_true, decide_eq_true_eq] at hvictim
  exact ⟨e, get?_eq_some.mpr hmem, hvictim⟩

/-- Without a victim there is nothing to drop. -/
theorem victim_eq_none (h : s.victim = none) {key : κ} {e : Entry Pk K}
    (he : s.entries.get? key = some e) (hdroppable : e.droppable = true) : e.skippedLen = 0 := by
  have hnil := argmax_eq_none.mp (map_eq_none_iff.mp h)
  rw [filter_eq_nil_iff] at hnil
  have hout := hnil (key, e) (get?_eq_some.mp he)
  rw [hdroppable, Bool.true_and, decide_eq_true_eq] at hout
  exact Nat.eq_zero_of_not_pos hout

/-- What a sweep leaves alone: which conversations there are, which of them are proven, and
everything about these. -/
structure Spares (s s' : Inner κ Pk K) : Prop where
  proven : ∀ key, (s'.entries.get? key).map Entry.everProven =
    (s.entries.get? key).map Entry.everProven
  kept : ∀ key e, s.entries.get? key = some e → e.droppable = false →
    s'.entries.get? key = some e

omit [DecidableEq Pk] in
theorem Spares.trans {s'' : Inner κ Pk K} (h : Spares s s') (h' : Spares s' s'') :
    Spares s s'' where
  proven key := (h'.proven key).trans (h.proven key)
  kept key e he hproven := h'.kept key e (h.kept key e he hproven) hproven

variable (child : K → Bool → K)

/-- **One round** takes as many keys as it says from a conversation that is not proven. -/
theorem round_spec {key : κ} {e : Entry Pk K} (he : s.entries.get? key = some e)
    (hdroppable : e.droppable = true)
    (hs' : s'.entries = s.entries.insert key (e.reclaim child).2) :
    (e.reclaim child).1 + s'.total = s.total ∧ Spares s s' := by
  obtain ⟨hsum, -, hproven⟩ := e.reclaim_spec child
  refine ⟨?_, fun key' => ?_, fun key' e' he' hkept => ?_⟩
  · rw [total, total, hs', sum_insert, sum_erase _ he]
    dsimp only
    omega
  · rw [hs', get?_insert]
    split
    next hkey => rw [hkey, he, map_some, map_some, hproven]
    · rfl
  · rw [hs', get?_insert, if_neg, he']
    rintro rfl
    rw [he] at he'
    cases he'
    rw [hdroppable] at hkept
    cases hkept

/-- **The loop ends** as long as there is fuel for every key: what is gone is what it says, and
either there are few enough or none is left to drop. -/
theorem sweep_spec (budget : ℕ) {total fuel freed : ℕ} (htotal : freed + s.total = total)
    (hfuel : s.total < fuel) :
    ∃ freed' s', sweep child budget total fuel freed s = some (freed', s') ∧
      freed' + s'.total = total ∧ Spares s s' ∧
      (s'.total ≤ budget ∨ ∀ key e, s'.entries.get? key = some e → e.droppable = true →
        e.skippedLen = 0) := by
  induction fuel generalizing s freed with
  | zero => cases hfuel
  | succ fuel ih =>
    have hself : Spares s s := ⟨fun _ => rfl, fun _ _ he _ => he⟩
    rw [sweep]
    split
    next hnone => exact ⟨freed, s, rfl, htotal, hself, .inr fun key e he => victim_eq_none hnone he⟩
    next key hvictim =>
    obtain ⟨e, he, hdroppable, hlen⟩ := victim_eq_some hvictim
    rw [he]
    dsimp only
    have hdropped := (e.reclaim_spec child).2.1 hlen
    let next : Inner κ Pk K :=
      { s with entries := s.entries.insert key (e.reclaim child).2 }.commitChange key
    obtain ⟨hless, hspares⟩ := round_spec child he hdroppable (rfl : next.entries = _)
    rw [if_neg hdropped.ne']
    split
    next hfew =>
      refine ⟨_, next, rfl, by omega, hspares, .inl ?_⟩
      omega
    · have htotal' : freed + (e.reclaim child).1 + next.total = total := by omega
      obtain ⟨freed', s', hsweep, hdone, hspares', hend⟩ := ih htotal' (by omega)
      exact ⟨freed', s', hsweep, hdone, hspares.trans hspares', hend⟩

/-- **The budget is enforced**, in any store: the sweep ends, says how many keys went, spares
every conversation that was proven, and ends with the keys within the budget or none left to
drop. Where they were within it, nothing changes. -/
theorem budget_enforced (s : Inner κ Pk K) (budget fuel : ℕ) (hfuel : s.total < fuel) :
    ∃ freed s', enforceSkippedBudgetTo child fuel s budget = some (freed, s') ∧
      freed = s.total - s'.total ∧ s'.total ≤ s.total ∧
      (∀ key, (s'.entries.get? key).map Entry.everProven =
        (s.entries.get? key).map Entry.everProven) ∧
      (∀ key e, s.entries.get? key = some e → e.everProven = true →
        s'.entries.get? key = some e) ∧
      (s'.total ≤ budget ∨ ∀ key e, s'.entries.get? key = some e → e.droppable = true →
        e.session.skippedLen = 0 ∧ e.crossedReceive.elim 0 RatchetCore.skippedLen = 0) ∧
      (s.total ≤ budget → freed = 0 ∧ s' = s) := by
  rw [enforceSkippedBudgetTo]
  split
  next hwithin =>
    exact ⟨0, s, rfl, (Nat.sub_self _).symm, le_rfl, fun _ => rfl, fun _ _ he _ => he,
      .inl hwithin, fun _ => ⟨rfl, rfl⟩⟩
  next hover =>
    obtain ⟨freed, s', hsweep, htotal, hspares, hend⟩ :=
      sweep_spec child budget (zero_add _) hfuel
    refine ⟨freed, s', hsweep, by omega, by omega, hspares.proven, fun key e he hproven => ?_,
      hend.imp_right fun hnone key e he hdroppable => ?_, fun hwithin => absurd hwithin hover⟩
    · refine hspares.kept key e he ?_
      rw [Entry.droppable, hproven]
      rfl
    · exact Nat.add_eq_zero_iff.mp (hnone key e he hdroppable)

/-- Keys that tell the path to them, for examples. -/
def sampleChild (key : ℕ) (right : Bool) : ℕ := 2 * key + right.toNat

/-- A conversation that was proven, with one key. -/
def sampleProven : Entry ℕ ℕ :=
  ⟨⟨some 1, false, 3, AList.insert (1, 0) 5 ∅, ∅⟩, none, 9, false⟩

/-- A conversation nobody has vouched for. Its chain is a tree of which only the third message has
come; it has a key of an earlier epoch, and a crossed session with one key. -/
def sampleCrossed : Entry ℕ ℕ :=
  let tree := ((Holes.root 3).takeLeaf sampleChild 2).elim (Holes.root 3) Prod.snd
  ⟨⟨some 1, true, 3, AList.insert (0, 4) 6 ∅, AList.insert 1 tree ∅⟩,
    some ⟨some 2, false, 1, AList.insert (2, 0) 8 ∅, ∅⟩, 0, false⟩

def sampleStore : Inner ℕ ℕ ℕ :=
  ⟨(OrdMap.empty.insert 1 sampleProven).insert 7 sampleCrossed, 0, OrdMap.empty⟩

/-- Of the four keys three go, in two rounds, and the conversation that was proven keeps its own. -/
theorem budget_enforced_sample :
    sampleStore.total = 4 ∧
      ∃ freed s', enforceSkippedBudgetTo sampleChild 5 sampleStore 1 = some (freed, s') ∧
        freed = sampleStore.total - s'.total ∧ s'.entries.get? 1 = some sampleProven ∧
        s'.total = 1 := by
  have htotal : sampleStore.total = 4 := by decide +kernel
  obtain ⟨freed, s', hsweep, hfreed, -, -, hspared, -⟩ :=
    budget_enforced sampleChild sampleStore 1 5 (by rw [htotal]; decide)
  have hleft : (enforceSkippedBudgetTo sampleChild 5 sampleStore 1).map (fun out => out.2.total) =
      some 1 := by
    decide +kernel
  rw [hsweep] at hleft
  exact ⟨htotal, freed, s', hsweep, hfreed, hspared 1 sampleProven rfl rfl,
    some.inj hleft⟩

end Inner

end VeilNetwork.Ratchet
