import Mathlib.Algebra.BigOperators.Group.Finset.Piecewise
import Mathlib.Data.Finset.Sort
import VeilNetwork.App.Credit
import VeilNetwork.App.Pins

/-!
# Who frees the slot of a stream

An open of a peer takes one of `maxStreamsPerPeer` slots of the peer and one of `maxTotalStreams`
slots of the node. A stream ends in one of four ways: the peer closes it, the application that
accepted it closes it, that application disconnects, or the session with the peer ends. This module
puts the sessions beside the node, with all four, and keeps a record of which streams are open, as
their ends see it, to be compared with the table.

The counts of the table are always right (`AppStreamTable.Counted`). Its entries are not: only a
close by the peer, and the end of a carrier that a stream is pinned to, reach the table. A close
by the application, a disconnect, and the end of a session with streams on its own connection
leave an entry behind.
-/

namespace VeilNetwork.App

open AList List Option Table Finset

namespace AppStreamTable

variable {N A : Type} [DecidableEq N] {t t' : AppStreamTable N A} {p : N} {k : ℕ}

/-! ### Counts -/

/-- The number of streams of a peer in the table. -/
def count (t : AppStreamTable N A) (p : N) : ℕ :=
  t.streams.sum fun key _ => if key.1 = p then 1 else 0

/-- The count kept of each peer is the number of its streams, and none is kept of a peer without
streams. -/
def Counted (t : AppStreamTable N A) : Prop :=
  ∀ p, t.perPeer.lookup p = if t.count p = 0 then none else some (t.count p)

theorem counted_new : Counted (new : AppStreamTable N A) := fun _ => rfl

/-- The two tables hold the same streams. -/
def SameKeys (t t' : AppStreamTable N A) : Prop :=
  ∀ key, (t'.streams.lookup key).isSome = (t.streams.lookup key).isSome

theorem Counted.sameKeys (h : t.Counted) (hkeys : SameKeys t t') (hper : t'.perPeer = t.perPeer) :
    t'.Counted := fun p => by
  have hcount : t'.count p = t.count p := sum_eq_of_isSome _ hkeys
  rw [hcount, hper, h p]

theorem Counted.getD (h : t.Counted) (p : N) : (t.perPeer.lookup p).getD 0 = t.count p := by
  rw [h p]
  split_ifs with hzero
  · exact hzero.symm
  · rfl

theorem sameKeys_insert {st st' : AppStreamState A} {key : N × ℕ}
    (hkey : t.streams.lookup key = some st) :
    SameKeys t { t with streams := t.streams.insert key st' } := fun key' => by
  rcases eq_or_ne key' key with rfl | hne
  · rw [lookup_insert, hkey]
    rfl
  · rw [lookup_insert_ne hne]

variable (t p) in
theorem sameKeys_receiveData (k n : ℕ) :
    SameKeys t (t.receiveData p k n).2 ∧ (t.receiveData p k n).2.perPeer = t.perPeer := by
  rcases t.receiveData_cases p k n with ⟨-, h⟩ | ⟨st, hst, ⟨-, h⟩ | ⟨-, h⟩⟩
  · rw [h]
    exact ⟨fun _ => rfl, rfl⟩
  · rw [h]
    exact ⟨fun _ => rfl, rfl⟩
  · rw [h]
    exact ⟨sameKeys_insert hst, rfl⟩

variable (t p) in
theorem sameKeys_applyWindowUpdate (k increment : ℕ) :
    SameKeys t (t.applyWindowUpdate p k increment) := fun key => by
  rw [applyWindowUpdate]
  rw [lookup_modify]
  split_ifs with heq
  · rw [heq, isSome_map]
  · rfl

/-- **An open counts its stream.** -/
theorem Counted.openStream (h : t.Counted) (p : N) (k : ℕ) (e : EndpointKey A) :
    (t.openStream p k e).2.Counted := by
  rw [AppStreamTable.openStream, openWithWindow]
  split_ifs with hopen
  · exact h
  · exact h
  · exact h
  · have hnone : t.streams.lookup (p, k) = none := not_isSome_iff_eq_none.mp hopen
    intro q
    rw [count, sum_insert_of_lookup_eq_none _ hnone, ← count, h.getD p]
    rcases eq_or_ne q p with rfl | hne
    · rw [lookup_insert, if_pos rfl, if_neg (by omega), add_comm]
    · rw [lookup_insert_ne hne, h q, if_neg (Ne.symm hne), zero_add]

/-- **A close takes its stream off the count.** -/
theorem Counted.close (h : t.Counted) (p : N) (k : ℕ) : (t.close p k).2.Counted := by
  rw [AppStreamTable.close]
  rcases hk : t.streams.lookup (p, k) with _ | st
  · exact h
  · have hsum : t.count p = 1 + count { t with streams := t.streams.erase (p, k) } p := by
      rw [count, sum_erase_of_lookup_eq_some _ hk, if_pos rfl]
      rfl
    have hother : ∀ q, q ≠ p → count { t with streams := t.streams.erase (p, k) } q = t.count q :=
      fun q hne => by
        rw [count, count, sum_erase_of_lookup_eq_some _ hk, if_neg (Ne.symm hne), zero_add]
    intro q
    rw [h p, if_neg (by omega)]
    change (if t.count p ≤ 1 then t.perPeer.erase p else t.perPeer.insert p (t.count p - 1)).lookup
      q = if count { t with streams := t.streams.erase (p, k) } q = 0 then none
        else some (count { t with streams := t.streams.erase (p, k) } q)
    rcases eq_or_ne q p with rfl | hne
    · split_ifs with hle hzero hzero
      · exact lookup_erase _ _
      · omega
      · omega
      · rw [lookup_insert, hsum, Nat.add_sub_cancel_left]
    · rw [hother q hne]
      split_ifs with hle hzero hzero
      · rw [lookup_erase_ne hne, h q, if_pos hzero]
      · rw [lookup_erase_ne hne, h q, if_neg hzero]
      · rw [lookup_insert_ne hne, h q, if_pos hzero]
      · rw [lookup_insert_ne hne, h q, if_neg hzero]

/-! ### Entries and open streams -/

/-- Every entry of the table is one of a set of streams. -/
def Within (t : AppStreamTable N A) (streams : Finset (N × ℕ)) : Prop :=
  ∀ p k, t.get p k ≠ none → (p, k) ∈ streams

variable {streams : Finset (N × ℕ)}

theorem Within.sameKeys (h : t.Within streams) (hkeys : SameKeys t t') : t'.Within streams := by
  intro p k hget
  refine h p k fun hnone => hget ?_
  rw [get, ← not_isSome_iff_eq_none] at hnone ⊢
  rwa [hkeys]

theorem Within.openStream (h : t.Within streams) (p : N) (k : ℕ) (e : EndpointKey A) :
    (t.openStream p k e).2.Within (if (t.openStream p k e).1 = .opened then insert (p, k) streams
      else streams) := by
  rcases hopen : t.openStream p k e with ⟨r, t'⟩
  split_ifs with hr
  · subst hr
    obtain ⟨-, hstreams⟩ := openStream_opened hopen
    intro q j hget
    rcases eq_or_ne (q, j) (p, k) with heq | hne
    · exact heq ▸ mem_insert_self _ _
    · rw [get, hstreams, lookup_insert_ne hne] at hget
      exact mem_insert_of_mem (h q j hget)
  · exact openStream_refused hopen hr ▸ h

/-- Closing a stream makes room for its own end. -/
theorem Within.close (h : t.Within streams) (p : N) (k : ℕ) :
    (t.close p k).2.Within (streams.erase (p, k)) := by
  intro q j hget
  rw [get_close] at hget
  split_ifs at hget with heq
  · exact absurd rfl hget
  · exact mem_erase.mpr ⟨heq, h q j hget⟩

theorem Within.mono {streams' : Finset (N × ℕ)} (h : t.Within streams) (hsub : streams ⊆ streams') :
    t.Within streams' := fun p k hget => hsub (h p k hget)

/-- The keys of the table. -/
theorem within_keys (t : AppStreamTable N A) : t.Within t.streams.keys.toFinset := by
  intro p k hget
  obtain ⟨st, hst⟩ := ne_none_iff_exists'.mp hget
  exact mem_toFinset.mpr (mem_keys_iff.mpr ⟨st, hst⟩)

theorem Within.keys_subset (h : t.Within streams) : t.streams.keys.toFinset ⊆ streams := by
  intro key hkey
  obtain ⟨st, hst⟩ := mem_keys_iff.mp (mem_toFinset.mp hkey)
  exact h key.1 key.2 fun hnone => some_ne_none st (hst.symm.trans hnone)

theorem Within.count_le (h : t.Within streams) (p : N) :
    t.count p ≤ (streams.filter fun key => key.1 = p).card := by
  have hcount : t.count p = (t.streams.keys.toFinset.filter fun key => key.1 = p).card := by
    rw [card_filter, List.sum_toFinset _ t.streams.keys_nodup, AList.keys, List.keys,
      List.map_map]
    rfl
  rw [hcount]
  exact card_le_card (filter_subset_filter _ h.keys_subset)

theorem Within.size_le (h : t.Within streams) : t.streams.size ≤ streams.card := by
  rw [size_eq_length_keys, ← toFinset_card_of_nodup t.streams.keys_nodup]
  exact card_le_card h.keys_subset

/-- **An open is refused for capacity when the peer has all its streams open, or the node all of
its own.** -/
theorem Within.full (h : t.Within streams) (hcount : t.Counted) {e : EndpointKey A}
    (hfull : (t.openStream p k e).1 = .capacityReached) :
    maxStreamsPerPeer ≤ (streams.filter fun key => key.1 = p).card ∨
      maxTotalStreams ≤ streams.card := by
  rw [AppStreamTable.openStream, openWithWindow] at hfull
  split_ifs at hfull with hopen htotal hpeer
  · exact .inr (htotal.trans h.size_le)
  · rw [hcount.getD p] at hpeer
    exact .inl (hpeer.trans (h.count_le p))

end AppStreamTable

/-- **Only frames of peers change the table.** -/
theorem Node.streamTable_step {N A C : Type} [DecidableEq N] [DecidableEq A] [DecidableEq C]
    (s : Node N A C) (host : Host N A C) {call : Call N A C} (hcall : call.ofPeer = false) :
    (s.step host call).streamTable = s.streamTable := by
  by_cases hforward : ∃ e room, call = .forward e room
  · obtain ⟨e, room, rfl⟩ := hforward
    rw [step, forward]
    split
    next c q rest _ _ =>
      split
      · exact (((Aside.refl (s.setQueue e rest)).setClient c _).deliver c _ room).table
      · refine ((Aside.refl _).deliver c _ room).table.trans ?_
        split <;> rfl
      · exact (((Aside.refl (s.setQueue e rest)).setClient c _).deliver c _ room).table
    · rfl
  · exact (aside_step host s hcall fun e room h => hforward ⟨e, room, h⟩).table

end VeilNetwork.App
