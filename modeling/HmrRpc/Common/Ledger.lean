import Mathlib.Algebra.Order.Group.Multiset
import Mathlib.Data.Multiset.Range
import Mathlib.Tactic.Abel

/-!
# Ledgers of numbered resources

Resources are numbered in the order of their creation. A ledger lists the resources some
party accounts for, and is balanced when every one created is listed exactly once. The
resources lost on the way from one ledger to another add up, so a balanced ledger stays
balanced exactly while nothing is lost.
-/

namespace HmrRpc.Common

/-- The resources accounted for, and the number of resources created. -/
structure Ledger where
  account : Multiset ℕ
  next : ℕ

namespace Ledger

/-- Every resource created is accounted for exactly once. -/
def Balanced (l : Ledger) : Prop := l.account = Multiset.range l.next

/-- The second ledger accounts for what the first does and for what was created since, but for
the lost resources. -/
def Loses (l l' : Ledger) (lost : Multiset ℕ) : Prop :=
  l'.account + lost + Multiset.range l.next = l.account + Multiset.range l'.next

variable {l l' l'' : Ledger} {lost lost' : Multiset ℕ}

/-- Losses add up. -/
theorem Loses.trans (h : l.Loses l' lost) (h' : l'.Loses l'' lost') :
    l.Loses l'' (lost + lost') := by
  unfold Loses at *
  apply add_right_cancel (b := l'.account + Multiset.range l'.next)
  calc
    _ = (l''.account + lost' + Multiset.range l'.next) +
        (l'.account + lost + Multiset.range l.next) := by abel
    _ = (l'.account + Multiset.range l''.next) + (l.account + Multiset.range l'.next) := by
      rw [h, h']
    _ = _ := by abel

/-- A balanced ledger stays so exactly when nothing is lost. -/
theorem Loses.balanced_iff (h : l.Loses l' lost) (hl : l.Balanced) : l'.Balanced ↔ lost = 0 := by
  unfold Loses at h
  rw [hl, add_comm] at h
  have h := add_left_cancel h
  unfold Balanced
  rw [← h]
  exact left_eq_add

/-- Losses keep an account to the resources created, each in it once. -/
theorem Loses.within (h : l.Loses l' lost) (hl : l.account ≤ Multiset.range l.next) :
    l'.account ≤ Multiset.range l'.next := by
  have hsum : l'.account + lost + Multiset.range l.next ≤
      Multiset.range l'.next + Multiset.range l.next :=
    calc
      l'.account + lost + Multiset.range l.next = l.account + Multiset.range l'.next := h
      _ ≤ Multiset.range l.next + Multiset.range l'.next := by gcongr
      _ = Multiset.range l'.next + Multiset.range l.next := add_comm _ _
  exact (Multiset.le_add_right _ _).trans (le_of_add_le_add_right hsum)

/-- Nothing is lost while the account only changes its order. -/
theorem Loses.same (haccount : l'.account = l.account) (hnext : l'.next = l.next) :
    l.Loses l' 0 := by
  rw [Loses, haccount, hnext, add_zero]

/-- Nothing is lost if a created resource enters the account. -/
theorem Loses.create (haccount : l'.account = l.account + {l.next}) (hnext : l'.next = l.next + 1) :
    l.Loses l' 0 := by
  rw [Loses, haccount, hnext, Multiset.range_succ, ← Multiset.singleton_add]
  abel

/-- A created resource that does not enter the account is lost. -/
theorem Loses.createLost (haccount : l'.account = l.account) (hnext : l'.next = l.next + 1) :
    l.Loses l' {l.next} := by
  rw [Loses, haccount, hnext, Multiset.range_succ, ← Multiset.singleton_add]
  abel

/-- A resource that leaves the account is lost. -/
theorem Loses.drop {i : ℕ} (haccount : l.account = l'.account + {i}) (hnext : l'.next = l.next) :
    l.Loses l' {i} := by
  rw [Loses, haccount, hnext]

end Ledger

end HmrRpc.Common
