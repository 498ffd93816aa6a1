import Mathlib.Algebra.Group.Int.Defs
import Mathlib.Algebra.Group.Nat.Defs

/-!
# Signed and unsigned 64-bit words

A cast between the two keeps the bits: numbers from `2 ^ 63` on are the negative ones, shifted by
`2 ^ 64`.
-/

theorem Int64.toNat_toUInt64 (n : Int64) :
    (n.toUInt64.toNat : Int) = if 0 ≤ n.toInt then n.toInt else n.toInt + 2 ^ 64 := by
  have bound := n.toUInt64.toNat_lt
  have bits : n.toInt = n.toBitVec.toInt := rfl
  rw [bits, BitVec.toInt_eq_toNat_cond, Int64.toNat_toBitVec]
  split <;> split <;> omega

theorem UInt64.toInt_toInt64 (n : UInt64) :
    n.toInt64.toInt = if n.toNat < 2 ^ 63 then (n.toNat : Int) else n.toNat - 2 ^ 64 := by
  have bound := n.toNat_lt
  have bits : n.toInt64.toInt = n.toBitVec.toInt := rfl
  rw [bits, BitVec.toInt_eq_toNat_cond, UInt64.toNat_toBitVec]
  split <;> split <;> omega
