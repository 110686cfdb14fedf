import Mathlib.Data.Prod.Lex
import VeilNetwork.Lib.OrdMap

/-!
# Keys by age

A set of pairs of a time and a key, in the order of the times and then of the keys: the index a
store keeps beside a table to find its oldest entry. What the index is for is one relation,
`AgeIndex.Lists`: it holds each key that has a stamp, under that stamp and no other.
-/

namespace VeilNetwork

open List Option

/-- Times with keys, oldest first. -/
abbrev AgeIndex (κ : Type) [LinearOrder κ] : Type := OrdMap (ℕ ×ₗ κ) Unit

namespace AgeIndex

variable {κ : Type} [LinearOrder κ] (o : AgeIndex κ)

/-- Enter a key under a time. -/
def add (ts : ℕ) (k : κ) : AgeIndex κ := o.insert (toLex (ts, k)) ()

/-- Take a key from under a time. -/
def drop (ts : ℕ) (k : κ) : AgeIndex κ := o.erase (toLex (ts, k))

/-- The pairs, oldest first. -/
def pairs : List (ℕ × κ) := o.entries.map fun e => ofLex e.1

/-- The index holds the keys that have a stamp, under their stamps. -/
def Lists (stamp : κ → Option ℕ) : Prop :=
  ∀ ts k, (ts, k) ∈ o.pairs ↔ stamp k = some ts

variable {o : AgeIndex κ} {stamp stamp' : κ → Option ℕ} {ts ts' : ℕ} {k k' : κ}

theorem mem_pairs : (ts, k) ∈ o.pairs ↔ (toLex (ts, k), ()) ∈ o.entries := by
  rw [pairs, List.mem_map]
  constructor
  · rintro ⟨⟨e, ⟨⟩⟩, he, heq⟩
    rwa [← heq]
  · exact fun h => ⟨_, h, rfl⟩

theorem mem_pairs_add :
    (ts', k') ∈ (o.add ts k).pairs ↔ (ts' = ts ∧ k' = k) ∨ (ts', k') ∈ o.pairs := by
  rw [mem_pairs, mem_pairs, add, OrdMap.mem_insert, Prod.mk.injEq, ne_eq, toLex_inj, Prod.mk.injEq]
  tauto

theorem mem_pairs_drop :
    (ts', k') ∈ (o.drop ts k).pairs ↔ (ts', k') ∈ o.pairs ∧ ¬(ts' = ts ∧ k' = k) := by
  rw [mem_pairs, mem_pairs, drop, OrdMap.mem_erase, ne_eq, toLex_inj, Prod.mk.injEq]

theorem nodup_pairs (o : AgeIndex κ) : o.pairs.Nodup := by
  have hpairs : o.pairs = o.keys.map ofLex := by rw [OrdMap.keys, List.map_map]; rfl
  rw [hpairs]
  exact o.nodup_keys.map ofLex.injective

theorem size_drop (h : (ts, k) ∈ o.pairs) : (o.drop ts k).size + 1 = o.size :=
  OrdMap.size_erase_of_get?_eq_some (OrdMap.get?_eq_some.mpr (mem_pairs.mp h))

/-- The first pair has the oldest time. -/
theorem le_of_head? (hhead : o.pairs.head? = some (ts, k)) (h : (ts', k') ∈ o.pairs) :
    ts ≤ ts' := by
  obtain ⟨e, hentry, heq⟩ := map_eq_some_iff.mp (head?_map .. ▸ hhead)
  obtain ⟨l, hl⟩ := head?_eq_some_iff.mp hentry
  have hmem := mem_pairs.mp h
  rw [hl, mem_cons] at hmem
  rcases hmem with hfirst | hlater
  · rw [← hfirst] at heq
    exact le_of_eq (Prod.mk.inj heq).1.symm
  · have hsorted := o.sorted
    rw [hl] at hsorted
    have hlt := (pairwise_cons.mp hsorted).1 _ hlater
    rw [← toLex_ofLex e.1, heq, Prod.Lex.toLex_lt_toLex] at hlt
    rcases hlt with hlt | ⟨heq, -⟩
    · exact hlt.le
    · exact heq.le

theorem lists_empty (h : ∀ k, stamp k = none) : Lists (OrdMap.empty : AgeIndex κ) stamp := by
  intro ts k
  rw [h k]
  constructor
  · intro hmem
    cases hmem
  · intro heq
    cases heq

section

variable (h : Lists o stamp)

include h

theorem Lists.congr (heq : ∀ k, stamp' k = stamp k) : Lists o stamp' :=
  fun ts k => (heq k).symm ▸ h ts k

theorem Lists.add (hk : stamp k = none)
    (hstamp : ∀ k', stamp' k' = if k' = k then some ts else stamp k') :
    Lists (o.add ts k) stamp' := by
  intro ts' k'
  rw [mem_pairs_add, h ts' k', hstamp]
  rcases eq_or_ne k' k with rfl | hne
  · rw [hk]
    simp [eq_comm]
  · simp [hne]

theorem Lists.drop (hk : stamp k = some ts)
    (hstamp : ∀ k', stamp' k' = if k' = k then none else stamp k') :
    Lists (o.drop ts k) stamp' := by
  intro ts' k'
  rw [mem_pairs_drop, h ts' k', hstamp]
  rcases eq_or_ne k' k with rfl | hne
  · rw [hk]
    simp [eq_comm]
  · simp [hne]

/-- No key is listed twice. -/
theorem Lists.nodup_keys : (o.pairs.map Prod.snd).Nodup := by
  refine List.Nodup.map_on ?_ o.nodup_pairs
  rintro ⟨ts, k⟩ hmem ⟨ts', k'⟩ hmem' heq
  obtain rfl : k = k' := heq
  have hts : some ts = some ts' := ((h ts k).mp hmem).symm.trans ((h ts' k).mp hmem')
  rw [some.inj hts]

/-- The oldest pair that satisfies a condition is the stamp of its key. -/
theorem Lists.of_find? {p : ℕ × κ → Bool}
    (hfind : o.pairs.find? p = some (ts, k)) : stamp k = some ts :=
  (h ts k).mp (mem_of_find?_eq_some hfind)

theorem Lists.of_head? (hhead : o.pairs.head? = some (ts, k)) :
    stamp k = some ts :=
  (h ts k).mp (mem_of_mem_head? hhead)

/-- With nothing to find, no key but those excluded has a stamp. -/
theorem Lists.of_find?_eq_none {p : ℕ × κ → Bool}
    (hfind : o.pairs.find? p = none) (hk : ∀ ts, p (ts, k) = true) : stamp k = none := by
  refine eq_none_iff_forall_ne_some.mpr fun ts hts => ?_
  exact find?_eq_none.mp hfind _ ((h ts k).mpr hts) (hk ts)

theorem Lists.of_head?_eq_none (hhead : o.pairs.head? = none) :
    stamp k = none := by
  refine eq_none_iff_forall_ne_some.mpr fun ts hts => ?_
  have hmem := (h ts k).mpr hts
  rw [head?_eq_none_iff.mp hhead] at hmem
  cases hmem

end

end AgeIndex

end VeilNetwork
