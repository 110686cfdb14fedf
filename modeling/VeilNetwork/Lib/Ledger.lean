import VeilNetwork.Lib.Table

/-!
# Ledgers

A ledger keeps a balance for each account of a family, as a table that a row is missing from when
its balance is zero. It is kept beside a table of entries, each of which has a cost and is charged
to at most one account. `Ledger.Balanced` says that the books are exact: the balance of an account
is the cost of its entries. The rules say what to do when an entry comes in, goes or is replaced,
so that the books stay exact.
-/

namespace VeilNetwork

open Table

/-- A balance for each account. -/
abbrev Ledger (γ : Type) : Type := Table γ ℕ

namespace Ledger

variable {γ κ α : Type} [DecidableEq γ] (l : Ledger γ)

/-- The balance of an account, zero where there is no row. -/
def balance (g : γ) : ℕ := (l.lookup g).getD 0

/-- Add to an account. -/
def charge (g : γ) (n : ℕ) : Ledger γ := l.insert g (l.balance g + n)

/-- Take back from an account, whose row goes when nothing is left. -/
def refund (g : γ) (n : ℕ) : Ledger γ :=
  if l.balance g - n = 0 then l.erase g else l.insert g (l.balance g - n)

variable {l l' : Ledger γ} {g g' : γ} {n : ℕ}

@[simp] theorem balance_empty : balance (∅ : Ledger γ) g = 0 := by
  rw [balance, AList.lookup_empty, Option.getD_none]

theorem balance_insert : balance (l.insert g n) g' = if g' = g then n else l.balance g' := by
  rw [balance, lookup_insert_eq_ite]
  split <;> rfl

theorem balance_erase : balance (l.erase g) g' = if g' = g then 0 else l.balance g' := by
  rw [balance, lookup_erase_eq_ite]
  split <;> rfl

theorem balance_charge :
    (l.charge g n).balance g' = if g' = g then l.balance g + n else l.balance g' :=
  balance_insert

theorem balance_refund :
    (l.refund g n).balance g' = if g' = g then l.balance g - n else l.balance g' := by
  rw [refund]
  split
  next hzero => rw [balance_erase, hzero]
  · rw [balance_insert]

theorem refund_le {cap : ℕ} (h : ∀ g, l.balance g ≤ cap) (g' : γ) :
    (l.refund g n).balance g' ≤ cap := by
  rw [balance_refund]
  split
  · exact Nat.le_trans (Nat.sub_le _ _) (h g)
  · exact h g'

theorem charge_le {cap : ℕ} (h : ∀ g, l.balance g ≤ cap) (hroom : l.balance g + n ≤ cap) (g' : γ) :
    (l.charge g n).balance g' ≤ cap := by
  rw [balance_charge]
  split
  · exact hroom
  · exact h g'

/-- No row is kept at zero. -/
theorem rows_refund (h : l.All fun _ m => m ≠ 0) : (l.refund g n).All fun _ m => m ≠ 0 := by
  rw [refund]
  split
  · exact h.erase g
  next hne => exact h.insert hne

/-! ### Exact books -/

section Balanced

variable (owner : κ → α → Option γ) (cost : κ → α → ℕ)

/-- What an entry costs an account. -/
def bill (g : γ) (k : κ) (a : α) : ℕ := if owner k a = some g then cost k a else 0

/-- **The books are exact.** -/
def Balanced (l : Ledger γ) (t : Table κ α) : Prop := ∀ g, l.balance g = t.sum (bill owner cost g)

variable {owner cost} {t t' : Table κ α} {k : κ} {a : α}

theorem bill_self (h : owner k a = some g) : bill owner cost g k a = cost k a := if_pos h

theorem bill_of_ne (h : owner k a ≠ some g) : bill owner cost g k a = 0 := if_neg h

/-- What an entry that is charged to one account costs each. -/
theorem bill_eq_ite (h : owner k a = some g) :
    bill owner cost g' k a = if g' = g then cost k a else 0 := by
  split
  next heq => exact heq ▸ bill_self h
  next hne => exact bill_of_ne fun h' => hne (Option.some.inj (h'.symm.trans h))

theorem Balanced.empty : Balanced owner cost (∅ : Ledger γ) (∅ : Table κ α) :=
  fun _ => balance_empty

section

variable [DecidableEq κ] (h : Balanced owner cost l t)

include h

/-- Only the lookups of the table matter, and only the balances of the ledger. -/
theorem Balanced.congr (hl : ∀ g, l'.balance g = l.balance g)
    (ht : ∀ k, t'.lookup k = t.lookup k) : Balanced owner cost l' t' := fun g => by
  rw [hl, h g, sum_eq_of_lookup _ ht]

/-- **A new entry is charged to its account.** -/
theorem Balanced.insert (hk : t.lookup k = none) (howner : owner k a = some g) :
    Balanced owner cost (l.charge g (cost k a)) (t.insert k a) := fun g' => by
  rw [balance_charge, sum_insert_of_lookup_eq_none _ hk, bill_eq_ite howner, ← h g']
  split
  next heq => rw [heq, add_comm]
  · rw [zero_add]

section

variable (hk : t.lookup k = some a)

include hk

/-- **An entry that goes is given back.** -/
theorem Balanced.erase (howner : owner k a = some g) :
    Balanced owner cost (l.refund g (cost k a)) (t.erase k) := fun g' => by
  have hsum := sum_erase_of_lookup_eq_some (bill owner cost g') hk
  rw [bill_eq_ite howner, ← h g'] at hsum
  rw [balance_refund]
  split
  next heq =>
    subst heq
    rw [if_pos rfl] at hsum
    omega
  next hne =>
    rw [if_neg hne, zero_add] at hsum
    exact hsum

/-- An entry that changes nothing that is charged. -/
theorem Balanced.replace {b : α} (howner : owner k b = owner k a) (hcost : cost k b = cost k a) :
    Balanced owner cost l (t.insert k b) := fun g => by
  have hbill : bill owner cost g k b = bill owner cost g k a := by rw [bill, bill, howner, hcost]
  have hsum := sum_insert_of_lookup_eq_some (bill owner cost g) hk b
  rw [hbill] at hsum
  rw [h g]
  omega

/-- **An entry takes the place of another**, which is given back first. -/
theorem Balanced.supersede {b : α} (howner : owner k a = some g) (howner' : owner k b = some g') :
    Balanced owner cost ((l.refund g (cost k a)).charge g' (cost k b)) (t.insert k b) := by
  refine ((h.erase hk howner).insert (AList.lookup_erase k t) howner').congr (fun _ => rfl)
    fun k' => ?_
  rw [lookup_insert_eq_ite, lookup_insert_eq_ite, lookup_erase_eq_ite]
  split <;> rfl

end

end

end Balanced

end Ledger

end VeilNetwork
