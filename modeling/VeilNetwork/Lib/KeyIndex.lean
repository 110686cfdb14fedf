import VeilNetwork.Lib.Table

/-!
# Indices by a key

A table of entries with an index beside it: entries may have a key, several may have the same one,
and the index names one entry for each key. An entry that comes in becomes the one that is named.
An entry that goes is no longer named, but no other takes its place; so the index answers for
every key that some entry has (`KeyIndex.Answers`) only as long as the entry that is named is the
last one of its key to go.
-/

namespace VeilNetwork.KeyIndex

open Option Table

variable {ι κ α : Type} [DecidableEq ι] [DecidableEq κ]

/-- Name the entry that comes in. -/
def note (idx : Table κ ι) (k : Option κ) (i : ι) : Table κ ι :=
  match k with
  | some k => idx.insert k i
  | none => idx

/-- No longer name the entry that goes. -/
def forget (idx : Table κ ι) (k : Option κ) (i : ι) : Table κ ι :=
  match k with
  | some k => if idx.lookup k = some i then idx.erase k else idx
  | none => idx

/-- The index names an entry of each key there is, and no other. -/
structure Answers (key : α → Option κ) (t : Table ι α) (idx : Table κ ι) : Prop where
  sound : ∀ k i, idx.lookup k = some i → ∃ a, t.lookup i = some a ∧ key a = some k
  complete : ∀ i a k, t.lookup i = some a → key a = some k → (idx.lookup k).isSome

/-- No other entry has the key of the one that is named. -/
def Last (key : α → Option κ) (t : Table ι α) (idx : Table κ ι) (i : ι) (a : α) : Prop :=
  ∀ k, key a = some k → idx.lookup k = some i → ∀ j b, t.lookup j = some b → key b = some k → j = i

variable {key : α → Option κ} {t : Table ι α} {idx : Table κ ι} {i : ι} {a : α}

namespace Answers

theorem empty : Answers key (∅ : Table ι α) (∅ : Table κ ι) where
  sound _ _ h := absurd h (by simp)
  complete _ _ _ h := absurd h (by simp)

theorem isSome_iff (h : Answers key t idx) (k : κ) :
    (idx.lookup k).isSome ↔ ∃ i a, t.lookup i = some a ∧ key a = some k := by
  constructor
  · intro hk
    obtain ⟨i, hi⟩ := isSome_iff_exists.mp hk
    obtain ⟨a, ha, hkey⟩ := h.sound k i hi
    exact ⟨i, a, ha, hkey⟩
  · rintro ⟨i, a, ha, hkey⟩
    exact h.complete i a k ha hkey

theorem bind_eq_some (h : Answers key t idx) {k : κ} (ha : (idx.lookup k).bind t.lookup = some a) :
    (∃ i, t.lookup i = some a) ∧ key a = some k := by
  obtain ⟨i, hi, ha⟩ := bind_eq_some_iff.mp ha
  obtain ⟨b, hb, hkey⟩ := h.sound k i hi
  rw [ha] at hb
  cases hb
  exact ⟨⟨i, ha⟩, hkey⟩

/-- **The entry of a key** is found exactly if there is one. -/
theorem isSome_bind_iff (h : Answers key t idx) (k : κ) :
    ((idx.lookup k).bind t.lookup).isSome ↔ ∃ i a, t.lookup i = some a ∧ key a = some k := by
  rw [← h.isSome_iff]
  constructor
  · intro hsome
    obtain ⟨a, ha⟩ := isSome_iff_exists.mp hsome
    obtain ⟨i, hi, -⟩ := bind_eq_some_iff.mp ha
    rw [hi]
    rfl
  · intro hsome
    obtain ⟨i, hi⟩ := isSome_iff_exists.mp hsome
    obtain ⟨a, ha, -⟩ := h.sound k i hi
    rw [hi, bind_some, ha]
    rfl

omit [DecidableEq ι] in
theorem lookup_note (idx : Table κ ι) (o : Option κ) (i : ι) (k : κ) :
    (note idx o i).lookup k = if o = some k then some i else idx.lookup k := by
  cases o with
  | none => rfl
  | some k' =>
    rw [note, lookup_insert_eq_ite]
    simp only [some.injEq, eq_comm]

theorem lookup_forget (idx : Table κ ι) (o : Option κ) (i : ι) (k : κ) :
    (forget idx o i).lookup k =
      if o = some k ∧ idx.lookup k = some i then none else idx.lookup k := by
  cases o with
  | none =>
    rfl
  | some k' =>
    rw [forget]
    by_cases hk : k' = k
    · subst hk
      by_cases hi : idx.lookup k' = some i
      · rw [if_pos hi, if_pos ⟨rfl, hi⟩, lookup_erase_eq_ite, if_pos rfl]
      · rw [if_neg hi, if_neg fun hk => hi hk.2]
    · have hother : ¬(some k' = some k ∧ idx.lookup k = some i) :=
        fun hk' => hk (some.inj hk'.1)
      split
      · rw [lookup_erase_eq_ite, if_neg fun heq => hk heq.symm]
      · rfl

/-- **An entry that comes in** under a new name is the one that is named. -/
theorem note (h : Answers key t idx) (hnew : t.lookup i = none) (a : α) :
    Answers key (t.insert i a) (note idx (key a) i) where
  sound := by
    intro k j hj
    rw [lookup_note] at hj
    split at hj
    next hkey =>
      cases hj
      exact ⟨a, AList.lookup_insert _, hkey⟩
    · obtain ⟨b, hb, hkey⟩ := h.sound k j hj
      refine ⟨b, ?_, hkey⟩
      rw [lookup_insert_eq_ite, if_neg, hb]
      rintro rfl
      rw [hnew] at hb
      cases hb
  complete := by
    intro j b k hb hkey
    rw [lookup_note]
    split
    · rfl
    next hne =>
      rw [lookup_insert_eq_ite] at hb
      split at hb
      · cases hb
        exact absurd hkey hne
      · exact h.complete j b k hb hkey

/-- **An entry that goes** leaves an answer for every key, unless it was the answer for one that
others have. -/
theorem forget (h : Answers key t idx) (ha : t.lookup i = some a) (hlast : Last key t idx i a) :
    Answers key (t.erase i) (forget idx (key a) i) where
  sound := by
    intro k j hj
    rw [lookup_forget] at hj
    split at hj
    · cases hj
    next hne =>
      obtain ⟨b, hb, hkey⟩ := h.sound k j hj
      refine ⟨b, ?_, hkey⟩
      rw [lookup_erase_eq_ite, if_neg, hb]
      rintro rfl
      rw [ha] at hb
      cases hb
      exact hne ⟨hkey, hj⟩
  complete := by
    intro j b k hb hkey
    rw [lookup_erase_eq_ite] at hb
    split at hb
    · cases hb
    next hne =>
      rw [lookup_forget, if_neg]
      · exact h.complete j b k hb hkey
      · exact fun hnamed => hne (hlast k hnamed.1 hnamed.2 j b hb hkey)

end Answers

end VeilNetwork.KeyIndex
