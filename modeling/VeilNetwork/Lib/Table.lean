import Mathlib.Algebra.Ring.Nat
import Mathlib.Data.List.AList

/-!
# Tables

Finite maps whose order does not matter, as Mathlib's association lists with one type of values.
What is added to the library's lemmas is the predicate of a table all of whose entries meet a
condition, with what each update of the table asks of it, and the sum of a measure over the
entries, which depends on the lookups only. A list of keys to erase may come with a bill, the
measure of each entry at the time it goes; `Table.sum_eq_of_bills` settles it in one sum.
-/

namespace VeilNetwork

open List Option AList

/-- A finite map. -/
abbrev Table (κ α : Type) : Type := AList fun _ : κ => α

namespace Table

variable {κ α : Type} (t : Table κ α)

/-- The number of entries. -/
def size : ℕ := t.entries.length

/-- Keep the entries that satisfy a predicate. -/
def retain (p : κ → α → Bool) : Table κ α :=
  ⟨t.entries.filter fun e => p e.1 e.2, List.NodupKeys.sublist List.filter_sublist t.nodupKeys⟩

/-- The other entries, which `retain` drops. -/
def rejected (p : κ → α → Bool) : List (κ × α) :=
  (t.entries.filter fun e => !p e.1 e.2).map fun e => (e.1, e.2)

/-- Change every value. -/
def map {β : Type} (t : Table κ α) (f : κ → α → β) : Table κ β :=
  ⟨t.entries.map fun e => ⟨e.1, f e.1 e.2⟩, by
    have hkeys : (t.entries.map fun e => (⟨e.1, f e.1 e.2⟩ : Sigma fun _ => β)).keys =
        t.entries.keys := by
      rw [List.keys, List.map_map]
      rfl
    rw [List.NodupKeys, hkeys]
    exact t.nodupKeys⟩

/-- The sum of a measure over the entries. -/
def sum (f : κ → α → ℕ) (t : Table κ α) : ℕ := (t.entries.map fun e => f e.1 e.2).sum

variable [DecidableEq κ]

/-- Change the value of a key, where it has one. -/
def modify (k : κ) (f : α → α) : Table κ α :=
  match t.lookup k with
  | some v => t.insert k (f v)
  | none => t

/-- Every entry meets a condition. -/
def All (P : κ → α → Prop) (t : Table κ α) : Prop := ∀ k v, t.lookup k = some v → P k v

variable {t : Table κ α} {k k' : κ} {v v' : α} {P Q : κ → α → Prop}

theorem lookup_insert_eq_some (h : (t.insert k v).lookup k' = some v') :
    (k' = k ∧ v' = v) ∨ (k' ≠ k ∧ t.lookup k' = some v') := by
  rcases eq_or_ne k' k with rfl | hne
  · rw [lookup_insert] at h
    exact .inl ⟨rfl, (some.inj h).symm⟩
  · rw [lookup_insert_ne hne] at h
    exact .inr ⟨hne, h⟩

theorem lookup_erase_eq_some (h : (t.erase k).lookup k' = some v) :
    k' ≠ k ∧ t.lookup k' = some v := by
  rcases eq_or_ne k' k with rfl | hne
  · rw [lookup_erase] at h
    cases h
  · rw [lookup_erase_ne hne] at h
    exact ⟨hne, h⟩

/-- A key with an entry is not one without. -/
theorem ne_of_lookup (h : t.lookup k = some v) (h' : t.lookup k' = none) : k ≠ k' := by
  rintro rfl
  rw [h'] at h
  cases h

theorem All.empty : All P (∅ : Table κ α) := by
  intro k v h
  cases h

theorem All.imp (h : All P t) (hPQ : ∀ k v, P k v → Q k v) : All Q t :=
  fun k v hkv => hPQ k v (h k v hkv)

theorem All.insert (h : All P t) (hnew : P k v) : All P (t.insert k v) := by
  intro k' v' hkv
  rcases lookup_insert_eq_some hkv with ⟨rfl, rfl⟩ | ⟨-, hold⟩
  · exact hnew
  · exact h k' v' hold

theorem All.erase (h : All P t) (k : κ) : All P (t.erase k) :=
  fun k' v hkv => h k' v (lookup_erase_eq_some hkv).2

theorem lookup_modify (t : Table κ α) (k : κ) (f : α → α) (k' : κ) :
    (t.modify k f).lookup k' = if k' = k then (t.lookup k).map f else t.lookup k' := by
  rw [modify]
  cases hk : t.lookup k with
  | none =>
    rcases eq_or_ne k' k with rfl | hne
    · rw [if_pos rfl, hk, map_none]
    · rw [if_neg hne]
  | some v =>
    rcases eq_or_ne k' k with rfl | hne
    · rw [if_pos rfl, lookup_insert, map_some]
    · rw [if_neg hne, lookup_insert_ne hne]

theorem lookup_erase_eq_ite (t : Table κ α) (k k' : κ) :
    (t.erase k).lookup k' = if k' = k then none else t.lookup k' := by
  split
  next h => rw [h, lookup_erase]
  next h => rw [lookup_erase_ne h]

variable (t k k' v) in
theorem lookup_insert_eq_ite :
    (t.insert k v).lookup k' = if k' = k then some v else t.lookup k' := by
  split
  next h => rw [h, lookup_insert]
  next h => rw [lookup_insert_ne h]

theorem lookup_eq_some_iff : t.lookup k = some v ↔ ⟨k, v⟩ ∈ t.entries := mem_lookup_iff

theorem lookup_retain (t : Table κ α) (p : κ → α → Bool) (k : κ) :
    (t.retain p).lookup k = (t.lookup k).filter (p k) := by
  refine ext fun v => ?_
  rw [lookup_eq_some_iff, filter_eq_some_iff, lookup_eq_some_iff]
  exact mem_filter

variable {β : Type}

theorem lookup_map (t : Table κ α) (f : κ → α → β) (k : κ) :
    (t.map f).lookup k = (t.lookup k).map (f k) := by
  refine ext fun v => ?_
  rw [lookup_eq_some_iff, map_eq_some_iff]
  constructor
  · intro hmem
    obtain ⟨e, he, heq⟩ := mem_map.mp hmem
    obtain ⟨rfl, hv⟩ := Sigma.mk.inj heq
    exact ⟨e.2, lookup_eq_some_iff.mpr he, eq_of_heq hv⟩
  · rintro ⟨v, hv, rfl⟩
    exact mem_map.mpr ⟨⟨k, v⟩, lookup_eq_some_iff.mp hv, rfl⟩

/-! ### Sums -/

variable {t' : Table κ α}

section

variable (f : κ → α → ℕ)

/-- A sum depends on the lookups only. -/
theorem sum_eq_of_lookup (h : ∀ k, t.lookup k = t'.lookup k) :
    t.sum f = t'.sum f :=
  ((lookup_ext t.nodupKeys t'.nodupKeys fun k v => by
    rw [← AList.lookup, ← AList.lookup, h]).map _).sum_nat

theorem sum_insert_of_lookup_eq_none (hk : t.lookup k = none) (v : α) :
    sum f (t.insert k v) = f k v + t.sum f := by
  rw [sum, entries_insert_of_notMem (lookup_eq_none.mp hk), map_cons,
    sum_cons, sum]

/-- A sum, with one entry set apart. -/
theorem sum_erase_of_lookup_eq_some (hk : t.lookup k = some v) :
    t.sum f = f k v + sum f (t.erase k) := by
  rw [← sum_insert_of_lookup_eq_none f (lookup_erase k t) v]
  refine sum_eq_of_lookup f fun k' => ?_
  rw [lookup_insert_eq_ite, lookup_erase_eq_ite]
  split
  next h => rw [h, hk]
  · rfl

theorem sum_erase_of_lookup_eq_none (hk : t.lookup k = none) :
    sum f (t.erase k) = t.sum f := by
  refine sum_eq_of_lookup f fun k' => ?_
  rw [lookup_erase_eq_ite]
  split
  next h => rw [h, hk]
  · rfl

/-- An entry takes the place of another. -/
theorem sum_insert_of_lookup_eq_some (hk : t.lookup k = some v) (v' : α) :
    sum f (t.insert k v') + f k v = t.sum f + f k v' := by
  have hlookup : ∀ k', (t.insert k v').lookup k' = ((t.erase k).insert k v').lookup k' := by
    intro k'
    rw [lookup_insert_eq_ite, lookup_insert_eq_ite, lookup_erase_eq_ite]
    split <;> rfl
  rw [sum_eq_of_lookup f hlookup, sum_insert_of_lookup_eq_none f (lookup_erase k t),
    sum_erase_of_lookup_eq_some f hk]
  omega

theorem le_sum_of_lookup (hk : t.lookup k = some v) : f k v ≤ t.sum f :=
  (sum_erase_of_lookup_eq_some f hk).symm ▸ Nat.le_add_right _ _

end

/-- A sum read off the keys. -/
theorem sum_eq_sum_keys (t : Table κ α) (f : κ → α → ℕ) :
    t.sum f = (t.keys.map fun k => (t.lookup k).elim 0 (f k)).sum := by
  rw [AList.keys, List.keys, List.map_map]
  refine congrArg List.sum (List.map_congr_left fun e he => ?_)
  rw [Function.comp_apply, lookup_eq_some_iff.mpr he, elim_some]

variable {f : κ → α → ℕ} {t : Table κ α}

/-- **A table split in two**: where each entry is in one of two tables, with its measure, its sum
is the sum of both. -/
theorem sum_add_sum {γ : Type} {a : Table κ β} {b : Table κ γ} {g : κ → β → ℕ} {h : κ → γ → ℕ}
    (hab : ∀ k, a.lookup k = none ∨ b.lookup k = none) (hmem : ∀ k, k ∈ t ↔ k ∈ a ∨ k ∈ b)
    (hval : ∀ k, (t.lookup k).elim 0 (f k) =
      (a.lookup k).elim 0 (g k) + (b.lookup k).elim 0 (h k)) :
    t.sum f = a.sum g + b.sum h := by
  have hnodup : (a.keys ++ b.keys).Nodup := by
    refine nodup_append.mpr ⟨a.keys_nodup, b.keys_nodup, ?_⟩
    rintro k hka _ hkb rfl
    rcases hab k with hk | hk
    · exact lookup_eq_none.mp hk hka
    · exact lookup_eq_none.mp hk hkb
  have hperm : t.keys.Perm (a.keys ++ b.keys) := by
    refine (perm_ext_iff_of_nodup t.keys_nodup hnodup).mpr fun k => ?_
    rw [mem_append, ← AList.mem_keys, ← AList.mem_keys, ← AList.mem_keys, hmem]
  rw [sum_eq_sum_keys, (hperm.map _).sum_nat, map_append, sum_append, sum_eq_sum_keys a,
    sum_eq_sum_keys b]
  congr 2
  · refine map_congr_left fun k hk => ?_
    have hb : b.lookup k = none := (hab k).resolve_left fun hnone =>
      lookup_eq_none.mp hnone (mem_keys.mpr hk)
    rw [hval, hb, elim_none, add_zero]
  · refine map_congr_left fun k hk => ?_
    have ha : a.lookup k = none := (hab k).resolve_right fun hnone =>
      lookup_eq_none.mp hnone (mem_keys.mpr hk)
    rw [hval, ha, elim_none, zero_add]

/-- A table whose entries are among those of another has the smaller sum. -/
theorem sum_le_of_lookup (f : κ → α → ℕ) (h : ∀ k v, t'.lookup k = some v → t.lookup k = some v) :
    t'.sum f ≤ t.sum f := by
  -- the other entries make up the difference
  have hrest : ∀ k, (t.retain fun k _ => (t'.lookup k).isNone).lookup k =
      if (t'.lookup k).isNone then t.lookup k else none := fun k => by
    rw [lookup_retain]
    cases (t'.lookup k).isNone <;> cases t.lookup k <;> rfl
  have hsplit : t.sum f = t'.sum f + (t.retain fun k _ => (t'.lookup k).isNone).sum f := by
    refine sum_add_sum (fun k => ?_) (fun k => ?_) fun k => ?_
    · rw [hrest]
      rcases hk : t'.lookup k with _ | v
      · exact .inl rfl
      · exact .inr rfl
    · rw [← lookup_isSome, ← lookup_isSome, ← lookup_isSome, hrest]
      rcases hk : t'.lookup k with _ | v
      · simp
      · simp [h k v hk]
    · rw [hrest]
      rcases hk : t'.lookup k with _ | v
      · simp
      · simp [h k v hk]
  rw [hsplit]
  exact Nat.le_add_right _ _

/-- A measure of the keys alone has the same sum over tables with the same keys. -/
theorem sum_eq_of_isSome {t' : Table κ β} (f : κ → ℕ)
    (h : ∀ k, (t'.lookup k).isSome = (t.lookup k).isSome) :
    (t'.sum fun k _ => f k) = t.sum fun k _ => f k := by
  have hperm : t'.keys.Perm t.keys := by
    refine (perm_ext_iff_of_nodup t'.keys_nodup t.keys_nodup).mpr fun k => ?_
    rw [← AList.mem_keys, ← AList.mem_keys, ← AList.lookup_isSome, ← AList.lookup_isSome, h]
  have hkeys : (t'.keys.map f).sum = (t.keys.map f).sum := (hperm.map f).sum_nat
  rw [AList.keys, List.keys, List.map_map, AList.keys, List.keys, List.map_map] at hkeys
  exact hkeys

/-! ### Erasing a list of keys -/

/-- Erase keys, one after the other. -/
def eraseAll (t : Table κ α) (ks : List κ) : Table κ α := ks.foldl (fun t k => t.erase k) t

theorem eraseAll_append (t : Table κ α) (ks ks' : List κ) :
    t.eraseAll (ks ++ ks') = (t.eraseAll ks).eraseAll ks' := foldl_append

variable {ks : List κ}

theorem lookup_eraseAll_of_mem (hk : k ∈ ks) : (t.eraseAll ks).lookup k = none := by
  have hnone : ∀ (ks : List κ) (t : Table κ α), t.lookup k = none →
      (t.eraseAll ks).lookup k = none := by
    intro ks
    induction ks with
    | nil => exact fun _ h => h
    | cons a ks ih =>
      intro t h
      refine ih (t.erase a) ?_
      rw [lookup_erase_eq_ite, h, ite_self]
  induction ks generalizing t with
  | nil => cases hk
  | cons a ks ih =>
    rcases mem_cons.mp hk with rfl | hk
    · exact hnone ks _ (lookup_erase k t)
    · exact ih hk

theorem lookup_eraseAll_of_notMem (hk : k ∉ ks) :
    (t.eraseAll ks).lookup k = t.lookup k := by
  induction ks generalizing t with
  | nil => rfl
  | cons a ks ih =>
    rw [mem_cons, not_or] at hk
    exact (ih hk.2).trans (lookup_erase_ne hk.1)

theorem lookup_of_lookup_eraseAll (h : (t.eraseAll ks).lookup k = some v) :
    k ∉ ks ∧ t.lookup k = some v := by
  by_cases hk : k ∈ ks
  · rw [lookup_eraseAll_of_mem hk] at h
    cases h
  · exact ⟨hk, lookup_eraseAll_of_notMem hk ▸ h⟩

omit [DecidableEq κ] in
theorem nodup_rejected (t : Table κ α) (p : κ → α → Bool) :
    ((t.rejected p).map Prod.fst).Nodup := by
  rw [rejected, List.map_map]
  exact List.Nodup.sublist (List.Sublist.map _ filter_sublist) t.keys_nodup

theorem mem_rejected {p : κ → α → Bool} {e : κ × α} :
    e ∈ t.rejected p ↔ t.lookup e.1 = some e.2 ∧ p e.1 e.2 = false := by
  rw [rejected, List.mem_map, lookup_eq_some_iff]
  constructor
  · rintro ⟨e', he', rfl⟩
    obtain ⟨hmem, hgoes⟩ := mem_filter.mp he'
    exact ⟨hmem, by simpa using hgoes⟩
  · rintro ⟨hmem, hgoes⟩
    exact ⟨⟨e.1, e.2⟩, mem_filter.mpr ⟨hmem, by simpa using hgoes⟩, rfl⟩

/-- To retain entries is to erase the keys of the others. -/
theorem lookup_retain_eq_lookup_eraseAll (t : Table κ α) (p : κ → α → Bool) (k : κ) :
    (t.retain p).lookup k = (t.eraseAll ((t.rejected p).map Prod.fst)).lookup k := by
  rw [lookup_retain]
  by_cases hk : k ∈ (t.rejected p).map Prod.fst
  · obtain ⟨e, he, rfl⟩ := mem_map.mp hk
    obtain ⟨hlookup, hgoes⟩ := mem_rejected.mp he
    rw [lookup_eraseAll_of_mem hk, hlookup, filter_some, hgoes]
    rfl
  · rw [lookup_eraseAll_of_notMem hk]
    rcases hlookup : t.lookup k with _ | v
    · rfl
    · have hstays : p k v = true := by
        by_contra hgoes
        exact hk (mem_map.mpr
          ⟨(k, v), mem_rejected.mpr ⟨hlookup, by simpa using hgoes⟩, rfl⟩)
      rw [filter_some, hstays]
      rfl

/-- The keys of a list, erased one after the other, had these measures when their turn came. -/
def Bills (f : κ → α → ℕ) : Table κ α → List (κ × ℕ) → Prop
  | _, [] => True
  | t, e :: l => e.2 = (t.lookup e.1).elim 0 (f e.1) ∧ Bills f (t.erase e.1) l

variable {l : List (κ × ℕ)}

theorem bills_append {l' : List (κ × ℕ)} :
    Bills f t (l ++ l') ↔ Bills f t l ∧ Bills f (t.eraseAll (l.map Prod.fst)) l' := by
  induction l generalizing t with
  | nil => exact (true_and _).symm ▸ Iff.rfl
  | cons e l ih => rw [cons_append, Bills, Bills, ih, and_assoc]; rfl

/-- The bill of keys that are all different can be read off the table. -/
theorem bills_of_nodup (hnodup : (l.map Prod.fst).Nodup)
    (h : ∀ e ∈ l, e.2 = (t.lookup e.1).elim 0 (f e.1)) : Bills f t l := by
  induction l generalizing t with
  | nil => trivial
  | cons e l ih =>
    obtain ⟨hnot, hnodup⟩ := nodup_cons.mp hnodup
    refine ⟨h e mem_cons_self, ih hnodup fun e' he' => ?_⟩
    rw [lookup_erase_ne (ne_of_mem_of_not_mem (mem_map_of_mem he') hnot)]
    exact h e' (mem_cons_of_mem _ he')

theorem sum_eq_add_erase (f : κ → α → ℕ) (t : Table κ α) (k : κ) :
    t.sum f = (t.lookup k).elim 0 (f k) + sum f (t.erase k) := by
  rcases hk : t.lookup k with _ | v
  · rw [elim_none, sum_erase_of_lookup_eq_none f hk, zero_add]
  · exact sum_erase_of_lookup_eq_some f hk

/-- **The bill is the difference.** -/
theorem sum_eq_of_bills (h : Bills f t l) :
    t.sum f = (l.map Prod.snd).sum + (t.eraseAll (l.map Prod.fst)).sum f := by
  induction l generalizing t with
  | nil => exact (zero_add _).symm
  | cons e l ih =>
    rw [sum_eq_add_erase f t e.1, ih h.2, map_cons, sum_cons, h.1,
      add_assoc]
    rfl

/-! ### Sizes -/

omit [DecidableEq κ] in
theorem size_eq_length_keys (t : Table κ α) : t.size = t.keys.length :=
  (length_map _).symm

omit [DecidableEq κ] in
theorem size_eq_sum (t : Table κ α) : t.size = t.sum fun _ _ => 1 := by
  rw [size, sum, map_const', sum_replicate_nat, mul_one]

theorem mem_keys_iff {k : κ} : k ∈ t.keys ↔ ∃ v, t.lookup k = some v := by
  rw [← AList.mem_keys, ← AList.lookup_isSome, isSome_iff_exists]

/-- A table whose keys are among those of another is not larger. -/
theorem size_le_of_isSome {t' : Table κ β} (h : ∀ k, (t'.lookup k).isSome → (t.lookup k).isSome) :
    t'.size ≤ t.size := by
  rw [size_eq_length_keys, size_eq_length_keys]
  refine (subperm_of_subset t'.keys_nodup fun k hk => ?_).length_le
  rw [← AList.mem_keys, ← AList.lookup_isSome] at hk ⊢
  exact h k hk

/-- A table whose entries are among those of another is not larger. -/
theorem size_le_of_lookup (h : ∀ k v, t'.lookup k = some v → t.lookup k = some v) :
    t'.size ≤ t.size := by
  refine size_le_of_isSome fun k hk => ?_
  obtain ⟨v, hv⟩ := isSome_iff_exists.mp hk
  exact isSome_iff_exists.mpr ⟨v, h k v hv⟩

/-- It is smaller if it misses one of them. -/
theorem size_lt_of_lookup (h : ∀ k v, t'.lookup k = some v → t.lookup k = some v)
    (hk : t.lookup k = some v) (hk' : t'.lookup k = none) : t'.size < t.size := by
  rw [size_eq_length_keys, size_eq_length_keys]
  have hnew : k ∉ t'.keys := fun hmem => by
    obtain ⟨w, hw⟩ := mem_keys_iff.mp hmem
    rw [hk'] at hw
    cases hw
  refine (subperm_of_subset (nodup_cons.mpr ⟨hnew, t'.keys_nodup⟩) ?_).length_le
  rintro k' (_ | ⟨_, hmem⟩)
  · exact mem_keys_iff.mpr ⟨v, hk⟩
  · obtain ⟨w, hw⟩ := mem_keys_iff.mp hmem
    exact mem_keys_iff.mpr ⟨w, h k' w hw⟩

theorem size_insert_of_lookup_eq_none (hk : t.lookup k = none) (v : α) :
    size (t.insert k v) = t.size + 1 := by
  have hnew : k ∉ t := lookup_eq_none.mp hk
  rw [size, entries_insert_of_notMem hnew, length_cons, size]

theorem size_erase_of_lookup_eq_some (hk : t.lookup k = some v) :
    size (t.erase k) + 1 = t.size := by
  rw [size_eq_sum, size_eq_sum, sum_erase_of_lookup_eq_some _ hk, add_comm]

theorem size_insert_of_lookup_eq_some (hk : t.lookup k = some v) (v' : α) :
    size (t.insert k v') = t.size := by
  rw [size_eq_length_keys, size_eq_length_keys]
  refine List.Perm.length_eq ((perm_ext_iff_of_nodup (keys_nodup _)
    (keys_nodup _)).mpr fun k' => ?_)
  rw [← AList.mem_keys, AList.mem_insert, ← AList.mem_keys, or_iff_right_iff_imp]
  rintro rfl
  exact lookup_isSome.mp (hk ▸ rfl)

end Table

end VeilNetwork
