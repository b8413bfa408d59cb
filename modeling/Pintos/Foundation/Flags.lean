import Mathlib.Algebra.Group.Nat.Defs
import Mathlib.Tactic.Common

/-! Words that pack flags beside an aligned number. -/

namespace Pintos.Foundation

section Masks

variable {n : Nat} {x m : BitVec n}

lemma not_and_of_disjoint (h : x &&& m = 0#n) : ~~~x &&& m = m := by
  ext i hi
  have hbit : (x[i] && m[i]) = false := by
    rw [← BitVec.getElem_and, ← BitVec.getLsbD_eq_getElem, h, BitVec.getLsbD_zero]
  rw [BitVec.getElem_and, BitVec.getElem_not]
  cases hc : x[i] with
  | false => rfl
  | true =>
    rw [hc, Bool.true_and] at hbit
    rw [hbit]
    rfl

lemma or_and_of_disjoint (w : BitVec n) (h : x &&& m = 0#n) : (w ||| x) &&& m = w &&& m := by
  rw [BitVec.and_comm, BitVec.and_or_distrib_left, BitVec.and_comm m x, h, BitVec.or_zero, BitVec.and_comm]

lemma and_not_and_of_disjoint (w : BitVec n) (h : x &&& m = 0#n) : (w &&& ~~~x) &&& m = w &&& m := by
  rw [BitVec.and_assoc, not_and_of_disjoint h]

lemma or_and_self (w x : BitVec n) : (w ||| x) &&& x = x := by
  ext i hi
  rw [BitVec.getElem_and, BitVec.getElem_or]
  cases x[i] <;> simp

end Masks

section Aligned

variable {n k a : Nat} (ha : a % 2 ^ k = 0) (hlt : a < 2 ^ n) (hk : k ≤ n)

include ha hlt hk

lemma ofNat_and_not_mask : BitVec.ofNat n a &&& ~~~BitVec.ofNat n (2 ^ k - 1) = BitVec.ofNat n a := by
  have hmask : 2 ^ k - 1 < 2 ^ n := by
    have hle : 2 ^ k ≤ 2 ^ n := Nat.pow_le_pow_right Nat.two_pos hk
    have hpos : 0 < 2 ^ k := Nat.two_pow_pos k
    omega
  have hlow : BitVec.ofNat n (2 ^ k - 1) &&& BitVec.ofNat n a = 0#n := by
    apply BitVec.eq_of_toNat_eq
    rw [BitVec.toNat_and, BitVec.toNat_ofNat, BitVec.toNat_ofNat, Nat.mod_eq_of_lt hlt, Nat.mod_eq_of_lt hmask,
      Nat.and_comm, Nat.and_two_pow_sub_one_eq_mod, ha, BitVec.toNat_zero]
  rw [BitVec.and_comm, not_and_of_disjoint hlow]

lemma ofNat_or_and {f : BitVec n} (hf : f &&& ~~~BitVec.ofNat n (2 ^ k - 1) = 0#n) :
    ((BitVec.ofNat n a ||| f) &&& ~~~BitVec.ofNat n (2 ^ k - 1)).toNat = a := by
  rw [or_and_of_disjoint _ hf, ofNat_and_not_mask ha hlt hk, BitVec.toNat_ofNat, Nat.mod_eq_of_lt hlt]

lemma ofNat_and_flag {f : BitVec n}
    (hf : ~~~BitVec.ofNat n (2 ^ k - 1) &&& f = 0#n) : BitVec.ofNat n a &&& f = 0#n := by
  rw [← ofNat_and_not_mask ha hlt hk, BitVec.and_assoc, hf, BitVec.and_zero]

end Aligned

end Pintos.Foundation
