import VeilNetwork.Lib.Run
import VeilNetwork.Ratchet.Tree

/-!
# The life of a key tree

From its root on, a key tree is cut down by leaves that are taken and by ranges it is cut to, and
it is written out and read back in between. What it covers at any time is what was never taken and
lies in every range; that is all a set of subtrees has to show (`Holes.keys_remaining`).
-/

namespace VeilNetwork.Ratchet

open KeyTree List OrdMap Option

namespace Holes

variable {K : Type} {Q : ℕ → ℕ → K → Prop} {child : K → Bool → K}

/-! ### Reading back -/

variable {l : List (ℕ × ℕ × K)}

/-- Filing well-formed nodes with starts of their own. -/
theorem foldlM_addNode {m : OrdMap ℕ (ℕ × K)} (hnode : ∀ e ∈ l, Subtree Q e.1 e.2.1 e.2.2)
    (hnodup : (l.map Prod.fst).Nodup) (hnew : ∀ e ∈ l, m.get? e.1 = none) :
    ∃ m', l.foldlM addNode m = .ok m' ∧ ∀ e, e ∈ m'.entries ↔ e ∈ m.entries ∨ e ∈ l := by
  induction l generalizing m with
  | nil => exact ⟨m, rfl, fun e => (or_iff_left not_mem_nil).symm⟩
  | cons e l ih =>
    obtain ⟨hhead, htail⟩ := forall_mem_cons.mp hnode
    obtain ⟨hfirst, hnodup⟩ := nodup_cons.mp hnodup
    obtain ⟨hfree, hnew⟩ := forall_mem_cons.mp hnew
    have hadd : addNode m e = .ok (m.insert e.1 e.2) := by
      have hmod : e.1 % span e.2.1 = 0 := Nat.mod_eq_zero_of_dvd hhead.aligned.dvd
      rw [addNode, if_neg (not_lt.mpr hhead.depth_le), if_neg (not_not.mpr hmod),
        if_neg (Bool.eq_false_iff.mp (contains_eq_false_iff.mpr hfree))]
    obtain ⟨m', hm', hmem⟩ := ih htail hnodup (m := m.insert e.1 e.2) fun e' he' => by
      have hne : e'.1 ≠ e.1 := fun heq => hfirst (heq ▸ mem_map_of_mem he')
      rw [get?_insert_of_ne hne]
      exact hnew e' he'
    refine ⟨m', ?_, fun e' => ?_⟩
    · rwa [foldlM_cons, hadd]
    · rw [hmem, mem_insert, mem_cons]
      constructor
      · rintro ((rfl | ⟨he', -⟩) | he')
        · exact .inr (.inl rfl)
        · exact .inl he'
        · exact .inr (.inr he')
      · rintro (he' | rfl | he')
        · refine .inl (.inr ⟨he', fun heq => ?_⟩)
          exact get?_eq_none.mp hfree e'.2 (heq ▸ he')
        · exact .inl (.inl rfl)
        · exact .inr he'

/-- Subtrees that do not overlap are in order. -/
theorem inOrder_of_apart {stop : ℕ} (hstop : ∀ e ∈ l, stop ≤ e.1)
    (hapart : l.Pairwise fun e e' => e.1 + span e.2.1 ≤ e'.1) : inOrder stop l = true := by
  induction l generalizing stop with
  | nil => rfl
  | cons e l ih =>
    obtain ⟨hhead, htail⟩ := pairwise_cons.mp hapart
    rw [inOrder, decide_eq_true (hstop e mem_cons_self)]
    exact ih hhead htail

/-- **What is written out is read back.** -/
theorem fromNodes_entries {h : Holes K} (hv : Valid Q h.nodes) :
    fromNodes h.nodes.entries = .ok h := by
  obtain ⟨m, hm, hmem⟩ := foldlM_addNode (m := empty) hv.node h.nodes.nodup_keys
    fun _ _ => rfl
  have hsame : m = h.nodes := by
    refine ext_get? fun k => ext fun v => ?_
    rw [get?_eq_some, get?_eq_some, hmem]
    exact or_iff_right not_mem_nil
  have hapart : h.nodes.entries.Pairwise fun e e' => e.1 + span e.2.1 ≤ e'.1 :=
    h.nodes.sorted.imp_of_mem fun he he' hlt => hv.apart _ he _ he' hlt
  rw [fromNodes, hm, hsame]
  exact if_pos (inOrder_of_apart (fun _ _ => Nat.zero_le _) hapart)

/-! ### Taking and cutting -/

/-- The calls on a tree. -/
inductive Call where
  | takeLeaf (index : ℕ)
  | retain (lo hi : ℕ)
  | reload

/-- A tree with what was taken from it and what it was cut to. -/
structure Life (K : Type) where
  holes : Holes K
  taken : List ℕ
  ranges : List (ℕ × ℕ)

namespace Life

/-- A new chain. -/
def start (chainKey : K) : Life K := ⟨root chainKey, [], []⟩

/-- Taking a leaf that is not there changes nothing. -/
def step (child : K → Bool → K) (s : Life K) : Call → Life K
  | .takeLeaf index =>
    match takeLeaf child s.holes index with
    | none => s
    | some (_, holes) => { s with holes, taken := index :: s.taken }
  | .retain lo hi => { s with holes := s.holes.retain child lo hi, ranges := (lo, hi) :: s.ranges }
  | .reload =>
    match fromNodes s.holes.nodes.entries with
    | .error _ => s
    | .ok holes => { s with holes }

/-- An index is still wanted. -/
def Wanted (s : Life K) (i : ℕ) : Prop := i ∉ s.taken ∧ ∀ r ∈ s.ranges, r.1 ≤ i ∧ i < r.2

/-- The nodes are subtrees with their keys, and they cover what is wanted. -/
structure Exact (child : K → Bool → K) (chainKey : K) (s : Life K) : Prop where
  valid : Valid (fun start depth key => key = nodeKey child treeDepth chainKey depth start)
    s.holes.nodes
  covers : ∀ i, Covers s.holes.nodes i ↔ i < 2 ^ treeDepth ∧ s.Wanted i

variable {chainKey : K} {s : Life K}

theorem exact_start (child : K → Bool → K) (chainKey : K) :
    (start chainKey).Exact child chainKey := by
  obtain ⟨hvalid, hcovers⟩ := root_spec (Q := fun start depth key =>
    key = nodeKey child treeDepth chainKey depth start) (k := chainKey) rfl
  refine ⟨hvalid, fun i => ?_⟩
  rw [start, hcovers]
  exact (and_iff_left ⟨not_mem_nil, nofun⟩).symm

theorem Exact.step (h : s.Exact child chainKey) (c : Call) :
    (s.step child c).Exact child chainKey := by
  have hQ := heritable_nodeKey child chainKey
  cases c with
  | takeLeaf index =>
    obtain ⟨-, hsome⟩ := takeLeaf_spec hQ h.valid index
    rw [Life.step]
    split
    · exact h
    next k holes htake =>
      obtain ⟨-, hvalid, hcovers⟩ := hsome k holes htake
      refine ⟨hvalid, fun i => ?_⟩
      rw [hcovers, h.covers, Wanted, Wanted, mem_cons, not_or]
      constructor
      · rintro ⟨⟨hi, htaken, hranges⟩, hne⟩
        exact ⟨hi, ⟨hne, htaken⟩, hranges⟩
      · rintro ⟨hi, ⟨hne, htaken⟩, hranges⟩
        exact ⟨⟨hi, htaken, hranges⟩, hne⟩
  | retain lo hi =>
    obtain ⟨hvalid, hcovers⟩ := retain_spec hQ h.valid lo hi
    refine ⟨hvalid, fun i => ?_⟩
    rw [Life.step, hcovers, h.covers, Wanted, Wanted, forall_mem_cons]
    constructor
    · rintro ⟨⟨hi, htaken, hranges⟩, hrange⟩
      exact ⟨hi, htaken, hrange, hranges⟩
    · rintro ⟨hi, htaken, hrange, hranges⟩
      exact ⟨⟨hi, htaken, hranges⟩, hrange⟩
  | reload =>
    rwa [Life.step, fromNodes_entries h.valid]

end Life

/-- **The nodes are the keys that remain**: whatever is taken and cut, in whatever order, the
nodes are disjoint aligned subtrees with the keys the tree derives for them, and they are read
back as they are written. A leaf is there exactly if it was not taken before and lies in every
range; it is the leaf the tree derives, and taking it takes no other. -/
theorem keys_remaining (child : K → Bool → K) (chainKey : K) (calls : List Call) :
    let s := calls.foldl (Life.step child) (Life.start chainKey)
    (∀ e ∈ s.holes.nodes.entries, e.2.1 ≤ treeDepth ∧
      Aligned treeDepth e.1 (treeDepth - e.2.1) ∧
      e.2.2 = nodeKey child treeDepth chainKey e.2.1 e.1) ∧
    (s.holes.nodes.entries.Pairwise fun e e' => e.1 + span e.2.1 ≤ e'.1) ∧
    fromNodes s.holes.nodes.entries = .ok s.holes ∧
    ∀ i < 2 ^ treeDepth,
      ((takeLeaf child s.holes i).isSome ↔
        i ∉ s.taken ∧ ∀ r ∈ s.ranges, r.1 ≤ i ∧ i < r.2) ∧
      ∀ key holes, takeLeaf child s.holes i = some (key, holes) →
        key = leafKey child treeDepth chainKey i ∧
        ∀ j, j ≠ i → ((takeLeaf child holes j).isSome ↔ (takeLeaf child s.holes j).isSome) := by
  intro s
  have hQ := heritable_nodeKey child chainKey
  have h : s.Exact child chainKey :=
    Run.invariant (fun _ c h => h.step c) (Life.exact_start child chainKey) calls
  have hthere {holes : Holes K} (hv : Valid
      (fun start depth key => key = nodeKey child treeDepth chainKey depth start) holes.nodes)
      (i : ℕ) : (takeLeaf child holes i).isSome ↔ Covers holes.nodes i := by
    rw [← not_iff_not, ← (takeLeaf_spec hQ hv i).1, Bool.not_eq_true, isSome_eq_false_iff,
      isNone_iff_eq_none]
  refine ⟨fun e he => ?_, ?_, fromNodes_entries h.valid,
    fun i hi => ⟨?_, fun key holes htake => ?_⟩⟩
  · obtain ⟨hdepth, haligned, hkey⟩ := h.valid.node e he
    exact ⟨hdepth, haligned, hkey⟩
  · exact s.holes.nodes.sorted.imp_of_mem fun he he' hlt => h.valid.apart _ he _ he' hlt
  · rw [hthere h.valid, h.covers]
    exact and_iff_right hi
  · obtain ⟨hkey, hvalid, hcovers⟩ := (takeLeaf_spec hQ h.valid i).2 key holes htake
    refine ⟨hkey, fun j hne => ?_⟩
    rw [hthere hvalid, hthere h.valid, hcovers]
    exact and_iff_left hne

/-! ### Nodes of whatever origin -/

/-- What filing nodes one after the other has checked. -/
theorem of_foldlM_addNode {m m' : OrdMap ℕ (ℕ × K)} (hok : l.foldlM addNode m = .ok m') :
    (∀ e ∈ l, e.2.1 ≤ treeDepth ∧ span e.2.1 ∣ e.1) ∧ m'.entries ~ m.entries ++ l := by
  induction l generalizing m with
  | nil =>
    cases hok
    exact ⟨nofun, by simp⟩
  | cons e l ih =>
    rw [foldlM_cons] at hok
    rcases hadd : addNode m e with _ | m₁
    · rw [hadd] at hok
      cases hok
    rw [hadd] at hok
    rw [addNode] at hadd
    split_ifs at hadd with hdepth haligned hfree
    cases hadd
    rw [not_not] at haligned
    rw [Bool.not_eq_true, contains_eq_false_iff] at hfree
    obtain ⟨hl, hperm⟩ := ih hok
    refine ⟨forall_mem_cons.mpr ⟨⟨not_lt.mp hdepth, Nat.dvd_of_mod_eq_zero haligned⟩, hl⟩, ?_⟩
    have hentry := insert_perm m e.1 e.2
    rw [erase_of_get?_eq_none hfree] at hentry
    exact hperm.trans ((hentry.append_right l).trans perm_middle.symm)

theorem apart_of_inOrder {stop : ℕ} (h : inOrder stop l = true) :
    (∀ e ∈ l, stop ≤ e.1) ∧ l.Pairwise fun e e' => e.1 + span e.2.1 ≤ e'.1 := by
  induction l generalizing stop with
  | nil => exact ⟨nofun, Pairwise.nil⟩
  | cons e l ih =>
    rw [inOrder, Bool.and_eq_true, decide_eq_true_eq] at h
    obtain ⟨hall, hl⟩ := ih h.2
    refine ⟨forall_mem_cons.mpr ⟨h.1, fun e' he' => ?_⟩, pairwise_cons.mpr ⟨hall, hl⟩⟩
    exact h.1.trans ((Nat.le_add_right _ _).trans (hall e' he'))

/-- **Stored nodes are taken as they are or not at all**: whatever was stored, what is rebuilt
holds the nodes of the list and no other, and they are aligned subtrees within the depth of the
tree that do not overlap. -/
theorem fromNodes_sound (l : List (ℕ × ℕ × K)) (h : Holes K) (hok : fromNodes l = .ok h) :
    h.nodes.entries ~ l ∧ (∀ e ∈ l, e.2.1 ≤ treeDepth ∧ span e.2.1 ∣ e.1) ∧
      h.nodes.entries.Pairwise fun e e' => e.1 + span e.2.1 ≤ e'.1 := by
  rw [fromNodes] at hok
  rcases hm : l.foldlM addNode OrdMap.empty with _ | m
  · rw [hm] at hok
    cases hok
  · rw [hm] at hok
    change (if inOrder 0 m.entries then _ else _) = _ at hok
    split at hok
    next horder =>
      cases hok
      obtain ⟨hl, hperm⟩ := of_foldlM_addNode hm
      exact ⟨hperm, hl, (apart_of_inOrder horder).2⟩
    · cases hok

theorem fromNodes_sound_pair :
    [((0 : ℕ), (31 : ℕ), false), (2, 31, true)].Pairwise fun e e' => e.1 + span e.2.1 ≤ e'.1 :=
  (fromNodes_sound [(2, 31, true), (0, 31, false)] _ rfl).2.2

end Holes

end VeilNetwork.Ratchet
