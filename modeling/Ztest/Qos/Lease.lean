import Mathlib.Algebra.Order.Monoid.Defs

/-!
This module contains when a lease of `qos/ledger.rs` has lapsed, on any clock.
-/

namespace Qos

def leaseDuration : Nat := 60

variable {α : Type} {renewTime duration : Option α} {renew dur now now' : α}

def isExpired [Add α] [LT α] [DecidableLT α] (renewTime duration : Option α) (now : α) : Bool :=
  match renewTime, duration with
  | some renew, some dur => renew + dur < now
  | _, _ => false

@[simp]
theorem isExpired_some [Add α] [LT α] [DecidableLT α]
    : isExpired (some renew) (some dur) now = true ↔ renew + dur < now := decide_eq_true_iff

theorem isExpired_mono [Add α] [Preorder α] [DecidableLT α] (hle : now ≤ now') (h : isExpired renewTime duration now = true)
    : isExpired renewTime duration now' = true := by
  unfold isExpired at h ⊢
  split at h
  . exact decide_eq_true ((of_decide_eq_true h).trans_le hle)
  . cases h

theorem isExpired_renewed [AddCommMonoid α] [PartialOrder α] [IsOrderedAddMonoid α] [DecidableLT α] (hdur : 0 ≤ dur)
    : isExpired (some now) (some dur) now = false := by
  rw [Bool.eq_false_iff, ne_eq, isExpired_some]
  exact not_lt_of_ge (le_add_of_nonneg_right hdur)

end Qos
