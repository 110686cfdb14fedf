import Mathlib.Algebra.Ring.Nat
import Mathlib.Data.List.Nodup
import Mathlib.Order.Lattice

/-!
# Ordered maps

A finite map that is iterated in the order of its keys, as the entries listed in that order. The
list is strictly sorted by key and the structure carries the proof, so a map with a key twice or
out of order cannot be built, iteration is the list itself, and two maps with the same lookups are
equal (`OrdMap.ext_get?`).

Insertion is written as the entries below the key, the new entry, and the entries above it. That
shape makes membership a case distinction and sortedness a concatenation; what a reader then wants
to know about counting is `OrdMap.insert_perm`: up to order, an insertion is the new entry in
front of the others.
-/

namespace VeilNetwork

open List Option

/-- A map from `κ` to `α`, held as its entries in strictly increasing key order. -/
structure OrdMap (κ α : Type) [LinearOrder κ] where
  /-- The entries, in key order. -/
  entries : List (κ × α)
  /-- The keys increase strictly. -/
  sorted : entries.Pairwise fun a b => a.1 < b.1

namespace OrdMap

variable {κ α : Type} [LinearOrder κ]

instance [DecidableEq α] : DecidableEq (OrdMap κ α) := fun m m' =>
  decidable_of_iff (m.entries = m'.entries) (by
    cases m
    cases m'
    simp)

/-! ### The operations -/

/-- The map with no entries. -/
def empty : OrdMap κ α := ⟨[], List.Pairwise.nil⟩

instance : Inhabited (OrdMap κ α) := ⟨empty⟩

section

variable (m : OrdMap κ α)

/-- The value at a key. -/
def get? (k : κ) : Option α :=
  (m.entries.find? fun e => decide (e.1 = k)).map Prod.snd

/-- Whether a key is present. -/
def contains (k : κ) : Bool := (m.get? k).isSome

/-- The number of entries. -/
def size : ℕ := m.entries.length

/-- The keys, in order. -/
def keys : List κ := m.entries.map Prod.fst

/-- The values, in the order of their keys. -/
def values : List α := m.entries.map Prod.snd

/-- Keep the entries that satisfy a predicate. -/
def retain (p : κ → α → Bool) : OrdMap κ α :=
  ⟨m.entries.filter fun e => p e.1 e.2, m.sorted.filter _⟩

/-- Drop a key. -/
def erase (k : κ) : OrdMap κ α := m.retain fun k' _ => decide (k' ≠ k)

/-- Set the value at a key, replacing what was there. -/
def insert (k : κ) (v : α) : OrdMap κ α where
  entries := m.entries.filter (fun e => decide (e.1 < k)) ++
    (k, v) :: m.entries.filter fun e => decide (k < e.1)
  sorted := by
    refine List.pairwise_append.mpr ⟨m.sorted.filter _, ?_, ?_⟩
    · refine List.pairwise_cons.mpr ⟨fun e he => ?_, m.sorted.filter _⟩
      simpa using (List.mem_filter.mp he).2
    · intro a ha b hb
      have hak : a.1 < k := by simpa using (List.mem_filter.mp ha).2
      rcases List.mem_cons.mp hb with rfl | hb
      · exact hak
      · exact lt_trans hak (by simpa using (List.mem_filter.mp hb).2)

/-- The entry with the least key. -/
def first? : Option (κ × α) := m.entries.head?

/-- The entry with the greatest key. -/
def last? : Option (κ × α) := m.entries.getLast?

/-- The entries from a key on, in order. -/
def rangeFrom (lo : κ) : List (κ × α) :=
  m.entries.filter fun e => decide (lo ≤ e.1)

/-- The entries strictly below a key, in order. -/
def rangeTo (hi : κ) : List (κ × α) :=
  m.entries.filter fun e => decide (e.1 < hi)

/-- The entries at or below a key, in order. -/
def rangeToIncl (hi : κ) : List (κ × α) :=
  m.entries.filter fun e => decide (e.1 ≤ hi)

/-- The entries from one key on and strictly below another, in order. -/
def range (lo hi : κ) : List (κ × α) :=
  m.entries.filter fun e => decide (lo ≤ e.1 ∧ e.1 < hi)

end

/-! ### Lookup and membership -/

section Lookup

variable {m m' : OrdMap κ α} {k k' : κ} {v : α} {e e' : κ × α}

/-- Two entries with one key are one entry. -/
theorem eq_of_key_eq (he : e ∈ m.entries) (he' : e' ∈ m.entries) (h : e.1 = e'.1) : e = e' := by
  by_contra hne
  have hs := List.Pairwise.forall_of_forall_of_flip (l := m.entries)
    (R := fun a b => a = b ∨ a.1 ≠ b.1) (fun a _ => .inl rfl)
    (m.sorted.imp fun hlt => .inr (ne_of_lt hlt))
    (m.sorted.imp fun hlt => .inr (ne_of_gt hlt))
  rcases hs he he' with h1 | h1
  · exact hne h1
  · exact h1 h

/-- **Lookup is membership.** -/
theorem get?_eq_some : m.get? k = some v ↔ (k, v) ∈ m.entries := by
  constructor
  · intro h
    obtain ⟨e, he, rfl⟩ := map_eq_some_iff.mp h
    have hk : e.1 = k := by simpa using find?_some he
    have hm := mem_of_find?_eq_some he
    rwa [← hk]
  · intro h
    have hsome : (m.entries.find? fun e => decide (e.1 = k)).isSome :=
      find?_isSome.mpr ⟨(k, v), h, by simp⟩
    obtain ⟨e, he⟩ := isSome_iff_exists.mp hsome
    have hk : e.1 = k := by simpa using find?_some he
    have hm := mem_of_find?_eq_some he
    have : e = (k, v) := eq_of_key_eq hm h hk
    rw [get?, he, this]
    rfl

theorem get?_eq_none : m.get? k = none ↔ ∀ v, (k, v) ∉ m.entries := by
  rw [eq_none_iff_forall_ne_some]
  exact forall_congr' fun v => not_congr get?_eq_some

theorem contains_eq_false_iff : m.contains k = false ↔ m.get? k = none := by
  simp [contains]

theorem nodup_keys (m : OrdMap κ α) : m.keys.Nodup :=
  pairwise_map.mpr (m.sorted.imp fun h => ne_of_lt h)

theorem mem_retain {p : κ → α → Bool} :
    e ∈ (m.retain p).entries ↔ e ∈ m.entries ∧ p e.1 e.2 = true := mem_filter

theorem mem_erase : e ∈ (m.erase k).entries ↔ e ∈ m.entries ∧ e.1 ≠ k := by
  rw [erase, mem_retain, decide_eq_true_eq]

theorem mem_insert :
    e ∈ (m.insert k v).entries ↔ e = (k, v) ∨ (e ∈ m.entries ∧ e.1 ≠ k) := by
  simp only [insert, mem_append, mem_cons, mem_filter, decide_eq_true_eq]
  constructor
  · rintro (⟨h, hlt⟩ | rfl | ⟨h, hlt⟩)
    · exact .inr ⟨h, ne_of_lt hlt⟩
    · exact .inl rfl
    · exact .inr ⟨h, ne_of_gt hlt⟩
  · rintro (rfl | ⟨h, hne⟩)
    · exact .inr (.inl rfl)
    · rcases lt_or_gt_of_ne hne with hlt | hlt
      · exact .inl ⟨h, hlt⟩
      · exact .inr (.inr ⟨h, hlt⟩)

theorem get?_insert : (m.insert k v).get? k' = if k' = k then some v else m.get? k' := by
  refine ext fun w => ?_
  rw [get?_eq_some, mem_insert]
  split
  next h =>
    subst h
    simp [eq_comm]
  next h => simp [h, get?_eq_some]

theorem get?_insert_of_ne (h : k' ≠ k) : (m.insert k v).get? k' = m.get? k' := by
  rw [get?_insert, if_neg h]

theorem get?_erase : (m.erase k).get? k' = if k' = k then none else m.get? k' := by
  refine ext fun w => ?_
  rw [get?_eq_some, mem_erase]
  split
  next h => simp [h]
  next h => simp [h, get?_eq_some]

/-- **Maps with the same lookups are equal.** -/
theorem ext_get? (h : ∀ k, m.get? k = m'.get? k) : m = m' := by
  have hmem : ∀ e, e ∈ m.entries ↔ e ∈ m'.entries := fun e => by
    rw [← get?_eq_some (m := m) (k := e.1) (v := e.2), h, get?_eq_some]
  have hirr : ∀ l : List (κ × α), l.Pairwise (fun a b => a.1 < b.1) → l.Nodup := fun l hl =>
    hl.imp fun hlt he => absurd (congrArg Prod.fst he) (ne_of_lt hlt)
  have hp : m.entries.Perm m'.entries :=
    (perm_ext_iff_of_nodup (hirr _ m.sorted) (hirr _ m'.sorted)).mpr hmem
  have he : m.entries = m'.entries :=
    hp.eq_of_pairwise (fun a b _ _ h1 h2 => absurd (lt_trans h1 h2) (lt_irrefl _))
      m.sorted m'.sorted
  cases m
  cases m'
  simpa using he

end Lookup

/-! ### Counting -/

section Counting

variable {m : OrdMap κ α} {k : κ} {v : α}

theorem filter_ne_perm (m : OrdMap κ α) (k : κ) :
    (m.entries.filter (fun e => decide (e.1 < k)) ++
      m.entries.filter fun e => decide (k < e.1)).Perm (m.erase k).entries := by
  have h := filter_append_perm (fun e => decide (e.1 < k)) (m.erase k).entries
  refine List.Perm.trans (List.Perm.of_eq ?_) h
  simp only [erase, retain, List.filter_filter]
  congr 1
  · refine filter_congr fun e _ => ?_
    rcases lt_trichotomy e.1 k with hlt | heq | hgt
    · simp [ne_of_lt hlt]
    · simp [heq]
    · simp [not_lt_of_gt hgt]
  · refine filter_congr fun e _ => ?_
    rcases lt_trichotomy e.1 k with hlt | heq | hgt
    · simp [hlt, not_lt_of_gt hlt]
    · simp [heq]
    · simp [hgt, not_lt_of_gt hgt, ne_of_gt hgt]

variable (m k v) in
/-- **Up to order, an insertion is the new entry in front of the others.** -/
theorem insert_perm :
    (m.insert k v).entries.Perm ((k, v) :: (m.erase k).entries) :=
  perm_middle.trans ((filter_ne_perm m k).cons _)

theorem erase_of_get?_eq_none (h : m.get? k = none) : m.erase k = m := by
  refine ext_get? fun k' => ?_
  rw [get?_erase]
  split
  next hk => rw [hk, h]
  · rfl

/-- Up to order, a map is one of its entries in front of the others. -/
theorem perm_cons_erase (h : m.get? k = some v) :
    m.entries.Perm ((k, v) :: (m.erase k).entries) := by
  have he : m = m.insert k v := by
    refine ext_get? fun k' => ?_
    rw [get?_insert]
    split
    next hk => rw [hk, h]
    · rfl
  conv => lhs; rw [he]
  exact insert_perm m k v

theorem size_erase_of_get?_eq_some (h : m.get? k = some v) :
    (m.erase k).size + 1 = m.size := by
  simpa [size] using (perm_cons_erase h).length_eq.symm

/-- A total over the entries after an insertion. -/
theorem sum_insert (f : κ × α → ℕ) (m : OrdMap κ α) (k : κ) (v : α) :
    ((m.insert k v).entries.map f).sum = f (k, v) + ((m.erase k).entries.map f).sum := by
  simpa using ((insert_perm m k v).map f).sum_nat

/-- A total over the entries, with one of them set apart. -/
theorem sum_erase (f : κ × α → ℕ) (h : m.get? k = some v) :
    (m.entries.map f).sum = f (k, v) + ((m.erase k).entries.map f).sum := by
  simpa using ((perm_cons_erase h).map f).sum_nat

end Counting

end OrdMap

end VeilNetwork
