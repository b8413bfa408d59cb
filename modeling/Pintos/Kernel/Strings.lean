import Pintos.Foundation.ByteMemory
import Pintos.Kernel.Machine

/-! The byte loops of the kernel's string library. -/

namespace Pintos.Kernel

open Pintos.Foundation

def memset (m : Memory) (dst : Nat) (value : BitVec 8) : Nat → Memory
  | 0 => m
  | n + 1 => Function.update (memset m dst value n) (wrap (dst + n)) value

def memcpy (m : Memory) (dst src : Nat) : Nat → Memory
  | 0 => m
  | n + 1 =>
    let m' := memcpy m dst src n
    Function.update m' (wrap (dst + n)) (m' (wrap (src + n)))

lemma memset_apply (m : Memory) (dst : Nat) (value : BitVec 8) (n x : Nat)
    (h : dst + n ≤ 4294967296) :
    memset m dst value n x = if dst ≤ x ∧ x < dst + n then value else m x := by
  induction n with
  | zero => simp [memset, show ¬ (dst ≤ x ∧ x < dst) by omega]
  | succ n ih =>
    rw [memset, wrap_of_lt (by omega), Function.update_apply, ih (by omega)]
    by_cases hx : x = dst + n
    · simp [hx]
    · by_cases hr : dst ≤ x ∧ x < dst + n
      · simp [hx, hr, show x < dst + (n + 1) by omega]
      · simp [hx, hr, show ¬ (dst ≤ x ∧ x < dst + (n + 1)) by omega]

lemma memcpy_of_notMem (m : Memory) (dst src n x : Nat) (hd : dst + n ≤ 4294967296)
    (hx : ¬ (dst ≤ x ∧ x < dst + n)) : memcpy m dst src n x = m x := by
  induction n with
  | zero => rfl
  | succ n ih =>
    have hne : x ≠ dst + n := by omega
    simp only [memcpy, wrap_of_lt (show dst + n < 4294967296 by omega)]
    rw [Function.update_of_ne hne]
    exact ih (by omega) (by omega)

lemma memcpy_of_mem (m : Memory) {dst src n k : Nat} (hd : dst + n ≤ 4294967296)
    (hs : src + n ≤ 4294967296) (hap : dst + n ≤ src ∨ src + n ≤ dst) (hk : k < n) :
    memcpy m dst src n (dst + k) = m (src + k) := by
  induction n with
  | zero => omega
  | succ n ih =>
    simp only [memcpy, wrap_of_lt (show dst + n < 4294967296 by omega),
      wrap_of_lt (show src + n < 4294967296 by omega)]
    by_cases hkn : k = n
    · subst hkn
      rw [Function.update_self]
      exact memcpy_of_notMem m dst src k _ (by omega) (by omega)
    · rw [Function.update_of_ne (by omega)]
      exact ih (by omega) (by omega) (by omega) (by omega)

end Pintos.Kernel
