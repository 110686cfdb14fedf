import Mathlib.Data.List.Sort
import VeilNetwork.Lib.KeyTree
import VeilNetwork.Lib.OrdMap

/-!
# A symmetric chain as a key tree

The set of remaining keys of one chain, as `tree.rs` keeps it: the roots of the
subtrees that still cover wanted indices, keyed by the first index they cover. Taking
a leaf splits the node that covers it and keeps the siblings along the path; cutting
the set to a range splits whatever straddles its ends.

`Valid` is what every such set satisfies: its nodes are aligned subtrees that do not
overlap, and each carries a key with the property `Q`. With `Q` the key the tree
derives for the node this says that every key that can be taken is the right one, and
with `Q` trivial it is the shape a stored session is checked for.
-/

namespace VeilNetwork.Ratchet

open KeyTree List OrdMap

/-- Levels in the tree: one per bit of the message index. -/
def treeDepth : ℕ := 32

/-- The number of indices a node at `depth` covers. -/
def span (depth : ℕ) : ℕ := 2 ^ (treeDepth - depth)

theorem span_pos (depth : ℕ) : 0 < span depth := Nat.two_pow_pos _

/-- The subtree roots still covering wanted indices of one chain: by the first index a
node covers, its depth and key. -/
structure Holes (K : Type) where
  nodes : OrdMap ℕ (ℕ × K)
deriving DecidableEq

namespace Holes

variable {K : Type}

/-! ### The set -/

/-- A whole chain: every index, under its root. -/
def root (chainKey : K) : Holes K := ⟨OrdMap.empty.insert 0 (0, chainKey)⟩

/-- One stored node, checked and filed. -/
def addNode (map : OrdMap ℕ (ℕ × K)) (n : ℕ × ℕ × K) : Except String (OrdMap ℕ (ℕ × K)) :=
  if treeDepth < n.2.1 then .error "tree node deeper than the tree"
  else if n.1 % span n.2.1 ≠ 0 then .error "tree node not aligned to its depth"
  else if map.contains n.1 then .error "duplicate tree node"
  else .ok (map.insert n.1 n.2)

/-- Every node starts at or after the end of the one before. -/
def inOrder : ℕ → List (ℕ × ℕ × K) → Bool
  | _, [] => true
  | stop, (start, depth, _) :: l => decide (stop ≤ start) && inOrder (start + span depth) l

/-- Rebuild from stored nodes, refusing anything that is not a set of disjoint,
well-formed subtrees. -/
def fromNodes (nodes : List (ℕ × ℕ × K)) : Except String (Holes K) := do
  let map ← nodes.foldlM addNode OrdMap.empty
  if inOrder 0 map.entries then .ok ⟨map⟩ else .error "overlapping tree nodes"

/-- The number of nodes. -/
def len (h : Holes K) : ℕ := h.nodes.size

/-- The nodes lying wholly below an index. -/
def lenBelow (h : Holes K) (index : ℕ) : ℕ :=
  ((h.nodes.rangeTo index).filter fun e => decide (e.1 + span e.2.1 ≤ index)).length

/-- The node covering an index. -/
def covering (h : Holes K) (index : ℕ) : Option (ℕ × ℕ × K) :=
  (h.nodes.rangeToIncl index).getLast?.filter fun e => decide (index < e.1 + span e.2.1)

/-- The loop of `takeLeaf`: `r` levels above the leaf, at the node that starts at `at`,
keep the sibling and go down. -/
def takeLoop (child : K → Bool → K) (index : ℕ) :
    ℕ → ℕ → K → OrdMap ℕ (ℕ × K) → K × OrdMap ℕ (ℕ × K)
  | 0, _, key, nodes => (key, nodes)
  | r + 1, start, key, nodes =>
    let half := span (treeDepth - r)
    if index.testBit r then
      takeLoop child index r (start + half) (child key true)
        (nodes.insert start (treeDepth - r, child key false))
    else
      takeLoop child index r start (child key false)
        (nodes.insert (start + half) (treeDepth - r, child key true))

section

variable (child : K → Bool → K)

/-- Take the key for an index, keeping every other index its node covered. -/
def takeLeaf (h : Holes K) (index : ℕ) : Option (K × Holes K) :=
  (h.covering index).map fun e =>
    let (key, nodes) :=
      takeLoop child index (treeDepth - e.2.1) e.1 e.2.2 (h.nodes.erase e.1)
    (key, ⟨nodes⟩)

/-- Keep of a subtree of height `r` what lies in `[lo, hi)`. -/
def splitInto (child : K → Bool → K) (lo hi : ℕ) :
    ℕ → ℕ → K → OrdMap ℕ (ℕ × K) → OrdMap ℕ (ℕ × K)
  | 0, start, key, nodes =>
    if start + span treeDepth ≤ lo ∨ hi ≤ start then nodes
    else nodes.insert start (treeDepth, key)
  | r + 1, start, key, nodes =>
    let stop := start + span (treeDepth - (r + 1))
    if stop ≤ lo ∨ hi ≤ start then nodes
    else if lo ≤ start ∧ stop ≤ hi then nodes.insert start (treeDepth - (r + 1), key)
    else
      let half := span (treeDepth - r)
      splitInto child lo hi r (start + half) (child key true)
        (splitInto child lo hi r start (child key false) nodes)

/-- One node of `retain`. -/
def retainNode (lo hi : ℕ) (nodes : OrdMap ℕ (ℕ × K)) (start : ℕ) : OrdMap ℕ (ℕ × K) :=
  match nodes.get? start with
  | none => nodes
  | some (depth, key) =>
    let stop := start + span depth
    if stop ≤ lo ∨ hi ≤ start then nodes.erase start
    else if start < lo ∨ hi < stop then
      splitInto child lo hi (treeDepth - depth) start key (nodes.erase start)
    else nodes

/-- Keep only indices in `[lo, hi)`. -/
def retain (h : Holes K) (lo hi : ℕ) : Holes K :=
  ⟨h.nodes.keys.foldl (retainNode child lo hi) h.nodes⟩

/-! ### What a set covers -/

variable (m : OrdMap ℕ (ℕ × K))

/-- Some node covers an index. -/
def Covers (i : ℕ) : Prop :=
  ∃ e ∈ m.entries, e.1 ≤ i ∧ i < e.1 + span e.2.1

/-- No node meets `[lo, hi)`. -/
def Clear (lo hi : ℕ) : Prop :=
  ∀ e ∈ m.entries, e.1 + span e.2.1 ≤ lo ∨ hi ≤ e.1

/-- A subtree with a key of its own. -/
structure Subtree (Q : ℕ → ℕ → K → Prop) (s d : ℕ) (k : K) : Prop where
  depth_le : d ≤ treeDepth
  aligned : Aligned treeDepth s (treeDepth - d)
  key : Q s d k

/-- Subtrees that do not overlap. -/
structure Valid (Q : ℕ → ℕ → K → Prop) (m : OrdMap ℕ (ℕ × K)) : Prop where
  node : ∀ e ∈ m.entries, Subtree Q e.1 e.2.1 e.2.2
  apart : ∀ e ∈ m.entries, ∀ e' ∈ m.entries, e.1 < e'.1 → e.1 + span e.2.1 ≤ e'.1

/-- The property passes from a node to its children. -/
def Heritable (Q : ℕ → ℕ → K → Prop) : Prop :=
  ∀ s d k, d + 1 ≤ treeDepth → Aligned treeDepth s (treeDepth - d) → Q s d k →
    Q s (d + 1) (child k false) ∧ Q (s + span (d + 1)) (d + 1) (child k true)

end

section Sets

variable {Q : ℕ → ℕ → K → Prop} {child : K → Bool → K} {m : OrdMap ℕ (ℕ × K)} {s d lo hi i r : ℕ}
  {k : K}

/-- The two halves of a subtree. -/
theorem span_succ (hd : d + 1 ≤ treeDepth) : span d = span (d + 1) + span (d + 1) := by
  rw [span, span, show treeDepth - d = treeDepth - (d + 1) + 1 by omega, pow_succ]
  omega

theorem Subtree.left (hQ : Heritable child Q) (h : Subtree Q s d k) (hd : d + 1 ≤ treeDepth) :
    Subtree Q s (d + 1) (child k false) := by
  refine ⟨hd, ?_, (hQ s d k hd h.aligned h.key).1⟩
  have hs := h.aligned
  rw [show treeDepth - d = treeDepth - (d + 1) + 1 by omega] at hs
  exact hs.left

theorem Subtree.right (hQ : Heritable child Q) (h : Subtree Q s d k) (hd : d + 1 ≤ treeDepth) :
    Subtree Q (s + span (d + 1)) (d + 1) (child k true) := by
  refine ⟨hd, ?_, (hQ s d k hd h.aligned h.key).2⟩
  have hs := h.aligned
  rw [show treeDepth - d = treeDepth - (d + 1) + 1 by omega] at hs
  exact hs.right

/-- **Adding a subtree** to a set that is clear of it. -/
theorem Valid.insert (h : Valid Q m) (hs : Subtree Q s d k) (hc : Clear m s (s + span d)) :
    Valid Q (m.insert s (d, k)) := by
  refine ⟨fun e he => ?_, fun e he e' he' hlt => ?_⟩
  · rcases mem_insert.mp he with rfl | ⟨he, -⟩
    · exact hs
    · exact h.node e he
  · rcases mem_insert.mp he with rfl | ⟨he, -⟩ <;>
      rcases mem_insert.mp he' with rfl | ⟨he', -⟩
    · exact absurd hlt (lt_irrefl _)
    · have hpos' := span_pos e'.2.1
      rcases hc e' he' with hc | hc <;> omega
    · rcases hc e he with hc | hc <;> omega
    · exact h.apart e he e' he' hlt

theorem covers_insert (hc : Clear m s (s + span d)) :
    Covers (m.insert s (d, k)) i ↔ Covers m i ∨ s ≤ i ∧ i < s + span d := by
  have hpos := span_pos d
  constructor
  · rintro ⟨e, he, h1, h2⟩
    rcases mem_insert.mp he with rfl | ⟨he, -⟩
    · exact .inr ⟨h1, h2⟩
    · exact .inl ⟨e, he, h1, h2⟩
  · rintro (⟨e, he, h1, h2⟩ | ⟨h1, h2⟩)
    · refine ⟨e, mem_insert.mpr (.inr ⟨he, ?_⟩), h1, h2⟩
      rcases hc e he with hc | hc <;> omega
    · exact ⟨(s, d, k), mem_insert.mpr (.inl rfl), h1, h2⟩

/-- A set stays clear of what an added subtree does not meet. -/
theorem Clear.insert (hc : Clear m lo hi) (hs : s + span d ≤ lo ∨ hi ≤ s) :
    Clear (m.insert s (d, k)) lo hi := by
  intro e he
  rcases mem_insert.mp he with rfl | ⟨he, -⟩
  · exact hs
  · exact hc e he

theorem Clear.mono (hc : Clear m lo hi) {lo' hi' : ℕ} (hlo : lo ≤ lo') (hhi : hi' ≤ hi) :
    Clear m lo' hi' := by
  intro e he
  rcases hc e he with h | h
  · exact .inl (h.trans hlo)
  · exact .inr (hhi.trans h)

/-- **Removing a node.** -/
theorem Valid.erase (h : Valid Q m) (s : ℕ) : Valid Q (m.erase s) := by
  refine ⟨fun e he => h.node e (mem_erase.mp he).1, fun e he e' he' hlt => ?_⟩
  exact h.apart e (mem_erase.mp he).1 e' (mem_erase.mp he').1 hlt

/-- A removed node leaves its interval clear. -/
theorem Valid.clear_erase (h : Valid Q m) {e : ℕ × ℕ × K} (he : e ∈ m.entries) :
    Clear (m.erase e.1) e.1 (e.1 + span e.2.1) := by
  intro e' he'
  obtain ⟨he', hne⟩ := mem_erase.mp he'
  rcases Nat.lt_or_gt_of_ne hne with hlt | hlt
  · exact .inl (h.apart e' he' e he hlt)
  · exact .inr (h.apart e he e' he' hlt)

theorem Valid.covers_erase (h : Valid Q m) {e : ℕ × ℕ × K} (he : e ∈ m.entries) :
    Covers (m.erase e.1) i ↔ Covers m i ∧ ¬(e.1 ≤ i ∧ i < e.1 + span e.2.1) := by
  constructor
  · rintro ⟨e', he', h1, h2⟩
    have hclear := h.clear_erase he e' he'
    refine ⟨⟨e', (mem_erase.mp he').1, h1, h2⟩, ?_⟩
    rintro ⟨h3, h4⟩
    rcases hclear with hc | hc <;> omega
  · rintro ⟨⟨e', he', h1, h2⟩, hout⟩
    refine ⟨e', mem_erase.mpr ⟨he', fun heq => hout ?_⟩, h1, h2⟩
    rw [eq_of_key_eq he' he heq] at h1 h2
    exact ⟨h1, h2⟩

/-! ### Taking a leaf -/

/-- **The path down to a leaf**: the subtree at hand is replaced by itself without the
leaf. -/
theorem takeLoop_spec (hQ : Heritable child Q) {index : ℕ} (hr : r ≤ treeDepth) (h : Valid Q m)
    (hs : Subtree Q s (treeDepth - r) k) (hc : Clear m s (s + span (treeDepth - r)))
    (hle : s ≤ index) (hlt : index < s + span (treeDepth - r)) :
    Valid Q (takeLoop child index r s k m).2 ∧
      (∀ i, Covers (takeLoop child index r s k m).2 i ↔
        Covers m i ∨ (s ≤ i ∧ i < s + span (treeDepth - r)) ∧ i ≠ index) ∧
      Q index treeDepth (takeLoop child index r s k m).1 := by
  induction r generalizing s k m with
  | zero =>
    have hone : span (treeDepth - 0) = 1 := by decide
    rw [hone] at hlt ⊢
    obtain rfl : s = index := by omega
    refine ⟨h, fun i => ⟨.inl, fun hi => hi.resolve_right ?_⟩, hs.key⟩
    rintro ⟨⟨h1, h2⟩, hne⟩
    omega
  | succ r ih =>
    have hd : treeDepth - (r + 1) + 1 = treeDepth - r := by omega
    have hdle : treeDepth - (r + 1) + 1 ≤ treeDepth := by omega
    have hspan := span_succ hdle
    have hleft := hs.left hQ hdle
    have hright := hs.right hQ hdle
    rw [hd] at hspan hleft hright
    have hbit : index.testBit r = true ↔ s + span (treeDepth - r) ≤ index := by
      have hal : Aligned treeDepth s (r + 1) := by
        have := hs.aligned
        rwa [show treeDepth - (treeDepth - (r + 1)) = r + 1 by omega] at this
      have hsp : span (treeDepth - (r + 1)) = 2 ^ (r + 1) := by
        rw [span, show treeDepth - (treeDepth - (r + 1)) = r + 1 by omega]
      have hsp' : span (treeDepth - r) = 2 ^ r := by
        rw [span, show treeDepth - (treeDepth - r) = r by omega]
      rw [hsp] at hlt
      rw [hsp']
      exact hal.testBit_iff hle hlt
    rw [takeLoop]
    by_cases hb : index.testBit r = true
    · rw [if_pos hb]
      have hhalf := hbit.mp hb
      have hcl : Clear m s (s + span (treeDepth - r)) := hc.mono le_rfl (by omega)
      obtain ⟨hv, hcov, hkey⟩ := ih (by omega) (h.insert hleft hcl) hright
        ((hc.mono (by omega) (by omega)).insert (.inl le_rfl)) hhalf (by omega)
      refine ⟨hv, fun i => ?_, hkey⟩
      rw [hcov, covers_insert hcl, or_assoc, hspan]
      refine or_congr Iff.rfl ⟨?_, ?_⟩
      · rintro (hi | hi) <;> omega
      · omega
    · rw [if_neg hb]
      have hhalf : ¬s + span (treeDepth - r) ≤ index := fun hge => hb (hbit.mpr hge)
      have hcr : Clear m (s + span (treeDepth - r))
          (s + span (treeDepth - r) + span (treeDepth - r)) := hc.mono (by omega) (by omega)
      obtain ⟨hv, hcov, hkey⟩ := ih (by omega) (h.insert hright hcr) hleft
        ((hc.mono le_rfl (by omega)).insert (.inr le_rfl)) hle (by omega)
      refine ⟨hv, fun i => ?_, hkey⟩
      rw [hcov, covers_insert hcr, or_assoc, hspan]
      refine or_congr Iff.rfl ⟨?_, ?_⟩
      · rintro (hi | hi) <;> omega
      · omega

variable {h : Holes K}

/-- The node found is the one that covers the index. -/
theorem covering_spec (hv : Valid Q h.nodes) (index : ℕ) :
    (∀ e, h.covering index = some e →
      e ∈ h.nodes.entries ∧ e.1 ≤ index ∧ index < e.1 + span e.2.1) ∧
    (h.covering index = none ↔ ¬Covers h.nodes index) := by
  have hsome : ∀ e, h.covering index = some e →
      e ∈ h.nodes.entries ∧ e.1 ≤ index ∧ index < e.1 + span e.2.1 := by
    intro e he
    obtain ⟨hlast, hin⟩ := Option.filter_eq_some_iff.mp he
    obtain ⟨hmem, hle⟩ := mem_filter.mp (mem_of_getLast? hlast)
    exact ⟨hmem, of_decide_eq_true hle, of_decide_eq_true hin⟩
  refine ⟨hsome, fun hnone => ?_, fun hnot => ?_⟩
  · rintro ⟨e, he, h1, h2⟩
    -- the last node that starts at or below the index is this one
    have hmem : e ∈ h.nodes.rangeToIncl index := mem_filter.mpr ⟨he, decide_eq_true h1⟩
    obtain ⟨l, hl⟩ := getLast?_isSome.mpr (ne_nil_of_mem hmem) |> Option.isSome_iff_exists.mp
    have hin := mem_filter.mp (mem_of_getLast? hl)
    have hsorted : (h.nodes.rangeToIncl index).Pairwise fun a b => a.1 < b.1 :=
      h.nodes.sorted.filter _
    have hle : e.1 ≤ l.1 := by
      obtain ⟨front, hfront⟩ := getLast?_eq_some_iff.mp hl
      rw [hfront] at hmem hsorted
      rcases mem_append.mp hmem with hmem | hmem
      · exact ((pairwise_append.mp hsorted).2.2 e hmem l (mem_singleton.mpr rfl)).le
      · rw [mem_singleton.mp hmem]
    have hl' : l.1 ≤ index := of_decide_eq_true hin.2
    have heq : e = l := by
      refine eq_of_key_eq he hin.1 (le_antisymm hle (Nat.le_of_not_lt fun hlt => ?_))
      have := hv.apart e he l hin.1 hlt
      omega
    subst heq
    have : h.covering index = some e := Option.filter_eq_some_iff.mpr ⟨hl, decide_eq_true h2⟩
    rw [hnone] at this
    cases this
  · rw [Option.eq_none_iff_forall_ne_some]
    intro e he
    obtain ⟨hmem, h1, h2⟩ := hsome e he
    exact hnot ⟨e, hmem, h1, h2⟩

/-- **Taking a leaf** gives a key exactly if the index is covered, and then the key is
the leaf's and only that index is no longer covered. -/
theorem takeLeaf_spec (hQ : Heritable child Q) (hv : Valid Q h.nodes) (index : ℕ) :
    (takeLeaf child h index = none ↔ ¬Covers h.nodes index) ∧
      ∀ k h', takeLeaf child h index = some (k, h') →
        Q index treeDepth k ∧ Valid Q h'.nodes ∧
          ∀ i, Covers h'.nodes i ↔ Covers h.nodes i ∧ i ≠ index := by
  obtain ⟨hsome, hnone⟩ := covering_spec hv index
  refine ⟨by rw [takeLeaf, Option.map_eq_none_iff, hnone], fun k h' htake => ?_⟩
  obtain ⟨e, he, heq⟩ := Option.map_eq_some_iff.mp htake
  obtain ⟨hmem, h1, h2⟩ := hsome e he
  have hsub := hv.node e hmem
  have hdepth := hsub.depth_le
  have hback : treeDepth - (treeDepth - e.2.1) = e.2.1 := by omega
  have hloop := takeLoop_spec (r := treeDepth - e.2.1) hQ (Nat.sub_le _ _) (hv.erase e.1)
    (by rw [hback]; exact hsub) (by rw [hback]; exact hv.clear_erase hmem) h1
    (by rw [hback]; exact h2)
  rw [hback] at hloop
  obtain ⟨hvalid, hcov, hkey⟩ := hloop
  cases heq
  refine ⟨hkey, hvalid, fun i => ?_⟩
  rw [hcov, hv.covers_erase hmem]
  constructor
  · rintro (⟨hi, hout⟩ | ⟨hin, hne⟩)
    · exact ⟨hi, fun hii => hout ⟨hii ▸ h1, hii ▸ h2⟩⟩
    · exact ⟨⟨e, hmem, hin⟩, hne⟩
  · rintro ⟨hi, hne⟩
    by_cases hin : e.1 ≤ i ∧ i < e.1 + span e.2.1
    · exact .inr ⟨hin, hne⟩
    · exact .inl ⟨hi, hin⟩

/-! ### Cutting to a range -/

/-- What of `[s, stop)` lies in `[lo, hi)` is added to a set. -/
structure Adds (Q : ℕ → ℕ → K → Prop) (m m' : OrdMap ℕ (ℕ × K)) (s stop lo hi : ℕ) : Prop where
  valid : Valid Q m'
  covers : ∀ i, Covers m' i ↔ Covers m i ∨ (s ≤ i ∧ i < stop) ∧ lo ≤ i ∧ i < hi
  inside : ∀ e ∈ m'.entries, e ∈ m.entries ∨ s ≤ e.1 ∧ e.1 + span e.2.1 ≤ stop
  keeps : ∀ e ∈ m.entries, e ∈ m'.entries

theorem Adds.none (h : Valid Q m) {stop : ℕ} (hout : stop ≤ lo ∨ hi ≤ s) :
    Adds Q m m s stop lo hi := by
  refine ⟨h, fun i => ⟨.inl, fun hi => hi.resolve_right ?_⟩, fun e he => .inl he,
    fun e he => he⟩
  rintro ⟨⟨h1, h2⟩, h3, h4⟩
  rcases hout with hout | hout <;> omega

theorem Adds.whole (h : Valid Q m) (hs : Subtree Q s d k) (hc : Clear m s (s + span d))
    (hin : lo ≤ s ∧ s + span d ≤ hi) :
    Adds Q m (m.insert s (d, k)) s (s + span d) lo hi := by
  refine ⟨h.insert hs hc, fun i => ?_, fun e he => ?_, fun e he => ?_⟩
  · rw [covers_insert hc]
    exact or_congr Iff.rfl ⟨fun hi => ⟨hi, by omega⟩, fun hi => hi.1⟩
  · rcases mem_insert.mp he with rfl | ⟨he, -⟩
    · exact .inr ⟨le_rfl, le_rfl⟩
    · exact .inl he
  · have hpos := span_pos d
    have hpos' := span_pos e.2.1
    refine mem_insert.mpr (.inr ⟨he, ?_⟩)
    rcases hc e he with hc | hc <;> omega

/-- One stretch after the other. -/
theorem Adds.halves {m₁ m₂ : OrdMap ℕ (ℕ × K)} {mid stop : ℕ} (h₁ : Adds Q m m₁ s mid lo hi)
    (h₂ : Adds Q m₁ m₂ mid stop lo hi) (hs : s ≤ mid) (hm : mid ≤ stop) :
    Adds Q m m₂ s stop lo hi := by
  refine ⟨h₂.valid, fun i => ?_, fun e he => ?_, fun e he => h₂.keeps e (h₁.keeps e he)⟩
  · rw [h₂.covers, h₁.covers, or_assoc]
    refine or_congr Iff.rfl ⟨?_, ?_⟩
    · rintro (hi | hi) <;> omega
    · omega
  · rcases h₂.inside e he with he | he
    · exact (h₁.inside e he).imp_right fun hin => ⟨hin.1, by omega⟩
    · exact .inr ⟨by omega, he.2⟩

/-- **The part of a subtree in a range** is added to a set that is clear of it. -/
theorem splitInto_spec (lo hi : ℕ) (hQ : Heritable child Q) (hr : r ≤ treeDepth) (h : Valid Q m)
    (hs : Subtree Q s (treeDepth - r) k) (hc : Clear m s (s + span (treeDepth - r))) :
    Adds Q m (splitInto child lo hi r s k m) s (s + span (treeDepth - r)) lo hi := by
  induction r generalizing s k m with
  | zero =>
    have hone : span treeDepth = 1 := by decide
    rw [splitInto]
    split
    next hout => exact .none h hout
    next hin =>
      rw [hone] at hin
      exact .whole h hs hc ⟨by omega, show s + span treeDepth ≤ hi by omega⟩
  | succ r ih =>
    rw [splitInto]
    split
    next hout => exact .none h hout
    · split
      next hin => exact .whole h hs hc hin
      · have hd : treeDepth - (r + 1) + 1 = treeDepth - r := by omega
        have hdle : treeDepth - (r + 1) + 1 ≤ treeDepth := by omega
        have hspan := span_succ hdle
        have hleft := hs.left hQ hdle
        have hright := hs.right hQ hdle
        rw [hd] at hspan hleft hright
        have hlower := ih (by omega) h hleft (hc.mono le_rfl (by omega))
        -- the lower half adds nothing to the upper one
        have hclear : Clear (splitInto child lo hi r s (child k false) m)
            (s + span (treeDepth - r)) (s + span (treeDepth - r) + span (treeDepth - r)) := by
          intro e he
          rcases hlower.inside e he with he | he
          · exact hc.mono (by omega) (by omega) e he
          · exact .inl he.2
        have hupper := ih (by omega) hlower.valid hright hclear
        rw [hspan, ← add_assoc]
        exact hlower.halves hupper (by omega) (by omega)

/-- **One node of the cut.** -/
theorem retainNode_spec (lo hi : ℕ) (hQ : Heritable child Q) (h : Valid Q m)
    (he : (s, d, k) ∈ m.entries) :
    Valid Q (retainNode child lo hi m s) ∧
      (∀ i, Covers (retainNode child lo hi m s) i ↔
        Covers m i ∧ (s ≤ i ∧ i < s + span d → lo ≤ i ∧ i < hi)) ∧
      ∀ e ∈ m.entries, e.1 ≠ s → e ∈ (retainNode child lo hi m s).entries := by
  have hget : m.get? s = some (d, k) := get?_eq_some.mpr he
  have hsub : Subtree Q s d k := h.node _ he
  have hdepth := hsub.depth_le
  have hback : treeDepth - (treeDepth - d) = d := by omega
  have hout (hnot : s + span d ≤ lo ∨ hi ≤ s) (i : ℕ) : ¬(s ≤ i ∧ i < s + span d) ↔
      (s ≤ i ∧ i < s + span d → lo ≤ i ∧ i < hi) := by
    refine ⟨fun hn hin => absurd hin hn, fun himp hin => ?_⟩
    rcases hnot with hnot | hnot <;> omega
  rw [retainNode, hget]
  dsimp only
  split
  next hnot =>
    refine ⟨h.erase s, fun i => ?_, fun e he' hne => mem_erase.mpr ⟨he', hne⟩⟩
    rw [h.covers_erase he]
    exact and_congr Iff.rfl (hout hnot i)
  · split
    · have hadds := splitInto_spec (r := treeDepth - d) lo hi hQ
        (Nat.sub_le _ _) (h.erase s) (by rw [hback]; exact hsub)
        (by rw [hback]; exact h.clear_erase he)
      rw [hback] at hadds
      refine ⟨hadds.valid, fun i => ?_, fun e he' hne =>
        hadds.keeps e (mem_erase.mpr ⟨he', hne⟩)⟩
      rw [hadds.covers, h.covers_erase he]
      constructor
      · rintro (⟨hi, hnot⟩ | ⟨hin, hrange⟩)
        · exact ⟨hi, fun hin => absurd hin hnot⟩
        · exact ⟨⟨_, he, hin⟩, fun _ => hrange⟩
      · rintro ⟨hi, himp⟩
        by_cases hin : s ≤ i ∧ i < s + span d
        · exact .inr ⟨hin, himp hin⟩
        · exact .inl ⟨hi, hin⟩
    · refine ⟨h, fun i => ⟨fun hi => ⟨hi, fun hin => ?_⟩, fun hi => hi.1⟩, fun e he' _ => he'⟩
      omega

/-- **The cut keeps exactly the range.** -/
theorem retain_spec (hQ : Heritable child Q) (hv : Valid Q h.nodes) (lo hi : ℕ) :
    Valid Q (h.retain child lo hi).nodes ∧
      ∀ i, Covers (h.retain child lo hi).nodes i ↔ Covers h.nodes i ∧ lo ≤ i ∧ i < hi := by
  -- over the nodes still to be looked at, all of them untouched so far
  have hloop : ∀ (l : List (ℕ × ℕ × K)) (m : OrdMap ℕ (ℕ × K)), Valid Q m →
      (l.map Prod.fst).Nodup → (∀ e ∈ l, e ∈ m.entries) →
      Valid Q ((l.map Prod.fst).foldl (retainNode child lo hi) m) ∧
        ∀ i, Covers ((l.map Prod.fst).foldl (retainNode child lo hi) m) i ↔
          Covers m i ∧ ∀ e ∈ l, e.1 ≤ i ∧ i < e.1 + span e.2.1 → lo ≤ i ∧ i < hi := by
    intro l
    induction l with
    | nil =>
      intro m hm _ _
      exact ⟨hm, fun i => ⟨fun hi => ⟨hi, nofun⟩, And.left⟩⟩
    | cons e l ih =>
      intro m hm hnodup hmem
      obtain ⟨hvalid, hcov, hkeep⟩ :=
        retainNode_spec lo hi hQ hm (hmem _ mem_cons_self)
      obtain ⟨hfresh, hnodup⟩ := nodup_cons.mp hnodup
      obtain ⟨hv', hcov'⟩ := ih _ hvalid hnodup fun e he =>
        hkeep e (hmem e (mem_cons_of_mem _ he)) fun heq =>
          hfresh (mem_map.mpr ⟨e, he, heq⟩)
      refine ⟨hv', fun i => ?_⟩
      rw [map_cons, foldl_cons, hcov', hcov, and_assoc, forall_mem_cons]
  obtain ⟨hvalid, hcov⟩ := hloop h.nodes.entries h.nodes hv h.nodes.nodup_keys fun e he => he
  refine ⟨hvalid, fun i => (hcov i).trans (and_congr_right fun hi => ⟨fun hall => ?_, ?_⟩)⟩
  · obtain ⟨e, he, hin⟩ := hi
    exact hall e he hin
  · exact fun hrange _ _ _ => hrange

/-! ### The whole tree -/

/-- The root covers every index. -/
theorem root_spec (hroot : Q 0 0 k) :
    Valid Q (root k).nodes ∧ ∀ i, Covers (root k).nodes i ↔ i < 2 ^ treeDepth := by
  refine ⟨⟨fun e he => ?_, fun e he e' he' hlt => ?_⟩, fun i => ?_⟩
  · obtain rfl := mem_singleton.mp he
    exact ⟨Nat.zero_le _, ⟨dvd_zero _, (Nat.zero_add _).le⟩, hroot⟩
  · obtain rfl := mem_singleton.mp he
    obtain rfl := mem_singleton.mp he'
    exact absurd hlt (lt_irrefl _)
  · constructor
    · rintro ⟨e, he, -, hlt⟩
      obtain rfl := mem_singleton.mp he
      rw [zero_add] at hlt
      exact hlt
    · intro hlt
      refine ⟨_, mem_singleton.mpr rfl, Nat.zero_le _, ?_⟩
      rwa [zero_add]

/-- The keys a tree derives pass to the children. -/
theorem heritable_nodeKey (child : K → Bool → K) (chainKey : K) :
    Heritable child fun s d k => k = nodeKey child treeDepth chainKey d s := by
  intro s d k hd hs hk
  rw [hk]
  exact ⟨(nodeKey_left hd hs).symm, (nodeKey_right hd hs).symm⟩

end Sets

end Holes

end VeilNetwork.Ratchet
