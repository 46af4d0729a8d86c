import Mathlib.Algebra.Ring.Nat
import Mathlib.Tactic.Common

/-!
This module contains saturating arithmetic on `UInt64`, together with the lemmas that push it to
`Nat`, where `omega` takes over.
-/

namespace UInt64

def maxValue : UInt64 := 18446744073709551615

def saturatingAdd (a b : UInt64) : UInt64 :=
  if a + b < a then maxValue else a + b

def saturatingSub (a b : UInt64) : UInt64 :=
  if b ≤ a then a - b else 0

def saturatingMul (a b : UInt64) : UInt64 :=
  if a.toNat * b.toNat < 2 ^ 64 then a * b else maxValue

@[simp]
theorem toNat_maxValue : maxValue.toNat = 2 ^ 64 - 1 := rfl

theorem toNat_le_maxValue (a : UInt64) : a.toNat ≤ 2 ^ 64 - 1 := by
  have := a.toNat_lt
  omega

@[simp]
theorem toNat_saturatingAdd (a b : UInt64)
    : (saturatingAdd a b).toNat = min (a.toNat + b.toNat) (2 ^ 64 - 1) := by
  have ha := a.toNat_lt
  have hb := b.toNat_lt
  unfold saturatingAdd
  split
  . next h =>
    rw [UInt64.lt_iff_toNat_lt, UInt64.toNat_add] at h
    simp only [toNat_maxValue]
    omega
  . next h =>
    rw [UInt64.lt_iff_toNat_lt, UInt64.toNat_add] at h
    rw [UInt64.toNat_add]
    omega

@[simp]
theorem toNat_saturatingSub (a b : UInt64)
    : (saturatingSub a b).toNat = a.toNat - b.toNat := by
  unfold saturatingSub
  split
  . next h => rw [UInt64.toNat_sub_of_le _ _ h]
  . next h =>
    rw [UInt64.le_iff_toNat_le] at h
    have : (0 : UInt64).toNat = 0 := rfl
    omega

theorem toNat_saturatingMul_of_lt {a b : UInt64} (h : a.toNat * b.toNat < 2 ^ 64)
    : (saturatingMul a b).toNat = a.toNat * b.toNat := by
  unfold saturatingMul
  rw [if_pos h, UInt64.toNat_mul, Nat.mod_eq_of_lt h]

end UInt64
