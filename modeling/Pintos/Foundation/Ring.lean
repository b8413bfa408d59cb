import Mathlib.Logic.Function.Basic
import Mathlib.Tactic.Common

/-! Circular buffers that keep one of their cells free. -/

namespace Pintos.Foundation

/-- From `tail` to `head` the `n` cells hold the elements of a list. -/
structure Ring {α : Type*} (n : Nat) (cell : Nat → α) (head tail : Nat) (xs : List α) : Prop where
  tail_lt : tail < n
  room : xs.length < n
  head_eq : head = (tail + xs.length) % n
  cells : ∀ (i : Nat) (h : i < xs.length), cell ((tail + i) % n) = xs[i]

namespace Ring

variable {α : Type*} {n head tail : Nat} {cell : Nat → α} {xs : List α}

lemma nil (h : tail < n) (cell : Nat → α) : Ring n cell tail tail [] :=
  ⟨h, Nat.zero_lt_of_lt h, (Nat.mod_eq_of_lt h).symm, fun _ hi => absurd hi (Nat.not_lt_zero _)⟩

lemma mod_eq {a : Nat} (ha : a < 2 * n) : a % n = if a < n then a else a - n := by
  split
  · next h => exact Nat.mod_eq_of_lt h
  · next h =>
    rw [Nat.mod_eq_sub_mod (by omega), Nat.mod_eq_of_lt (by omega)]

lemma head_eq_tail_iff (h : Ring n cell head tail xs) : head = tail ↔ xs = [] := by
  have htail := h.tail_lt
  have hroom := h.room
  have hhead := h.head_eq
  rw [mod_eq (by omega)] at hhead
  rw [← List.length_eq_zero_iff]
  split at hhead <;> omega

lemma full_iff (h : Ring n cell head tail xs) : (head + 1) % n = tail ↔ xs.length + 1 = n := by
  have htail := h.tail_lt
  have hroom := h.room
  have hhead := h.head_eq
  rw [mod_eq (by omega)] at hhead
  have hlt : head < n := by split at hhead <;> omega
  rw [mod_eq (by omega)]
  split at hhead <;> split <;> omega

lemma push (h : Ring n cell head tail xs) (hfull : (head + 1) % n ≠ tail) (x : α) :
    Ring n (Function.update cell head x) ((head + 1) % n) tail (xs ++ [x]) := by
  have htail := h.tail_lt
  have hroom := h.room
  have hsome : xs.length + 1 < n := by
    have hne := mt h.full_iff.mpr hfull
    omega
  refine ⟨htail, by simpa using hsome, ?_, fun i hi => ?_⟩
  · rw [h.head_eq, Nat.mod_add_mod, List.length_append, List.length_singleton, Nat.add_assoc]
  · rw [List.length_append, List.length_singleton] at hi
    by_cases hlast : i = xs.length
    · subst hlast
      rw [← h.head_eq, Function.update_self, List.getElem_append_right (Nat.le_refl _)]
      simp
    · have hlt : i < xs.length := by omega
      rw [List.getElem_append_left hlt, Function.update_of_ne, h.cells i hlt]
      rw [h.head_eq, mod_eq (by omega), mod_eq (by omega)]
      split <;> split <;> omega

lemma pop {x : α} (h : Ring n cell head tail (x :: xs)) :
    cell tail = x ∧ Ring n cell head ((tail + 1) % n) xs := by
  have htail := h.tail_lt
  have hroom := h.room
  rw [List.length_cons] at hroom
  constructor
  · have hfirst := h.cells 0 (by simp)
    rwa [Nat.add_zero, Nat.mod_eq_of_lt htail] at hfirst
  · refine ⟨Nat.mod_lt _ (by omega), by omega, ?_, fun i hi => ?_⟩
    · rw [h.head_eq, Nat.mod_add_mod, List.length_cons, Nat.add_right_comm, Nat.add_assoc]
    · have hnext := h.cells (i + 1) (by simpa using hi)
      rw [Nat.mod_add_mod, Nat.add_right_comm, Nat.add_assoc, hnext]
      rfl

end Ring

end Pintos.Foundation
