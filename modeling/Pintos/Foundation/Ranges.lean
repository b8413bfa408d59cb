import Mathlib.Data.List.Basic
import Mathlib.Tactic.Common

/-! Half-open ranges of addresses and lists of pairwise separate ranges. -/

namespace Pintos.Foundation

structure Range where
  start : Nat
  size : Nat
  deriving DecidableEq, Repr

namespace Range

def Mem (r : Range) (x : Nat) : Prop := r.start ≤ x ∧ x < r.start + r.size

def Apart (r s : Range) : Prop := r.start + r.size ≤ s.start ∨ s.start + s.size ≤ r.start

instance (r s : Range) : Decidable (r.Apart s) := inferInstanceAs (Decidable (_ ∨ _))

def Within (r s : Range) : Prop := s.start ≤ r.start ∧ r.start + r.size ≤ s.start + s.size

variable {r s : Range}

lemma Apart.symm (h : r.Apart s) : s.Apart r := Or.symm h

lemma Apart.not_mem (h : r.Apart s) {x : Nat} (hx : r.Mem x) : ¬ s.Mem x := by
  rintro ⟨h1, h2⟩
  obtain ⟨h3, h4⟩ := hx
  rcases h with h | h <;> omega

lemma Within.mem (h : r.Within s) {x : Nat} (hx : r.Mem x) : s.Mem x :=
  ⟨Nat.le_trans h.1 hx.1, Nat.lt_of_lt_of_le hx.2 h.2⟩

lemma Within.trans {t : Range} (h : r.Within s) (h' : s.Within t) : r.Within t :=
  ⟨Nat.le_trans h'.1 h.1, Nat.le_trans h.2 h'.2⟩

lemma Within.apart {t : Range} (h : r.Within s) (hst : s.Apart t) : r.Apart t := by
  obtain ⟨h1, h2⟩ := h
  rcases hst with h3 | h3
  · exact .inl (by omega)
  · exact .inr (by omega)

end Range

lemma forall_offset_succ {a n : Nat} (P : Nat → Prop) :
    (∀ i < n + 1, P (a + i)) ↔ P a ∧ ∀ i < n, P (a + 1 + i) := by
  simp only [Nat.forall_lt_succ_left, Nat.add_zero, Nat.add_right_comm a 1, Nat.add_assoc]

section Separate

variable {α : Type*} (range : α → Range)

def Separate (xs : List α) : Prop := xs.Pairwise fun x y => (range x).Apart (range y)

variable {range} {xs : List α} {x : α}

variable (h : Separate range xs)

include h

lemma Separate.cons (hx : ∀ y ∈ xs, (range x).Apart (range y)) : Separate range (x :: xs) :=
  List.pairwise_cons.mpr ⟨hx, h⟩

lemma Separate.erase [DecidableEq α] (x : α) : Separate range (xs.erase x) :=
  h.sublist List.erase_sublist

lemma Separate.apart_of_mem_erase [DecidableEq α] {y : α}
    (hx : x ∈ xs) (hy : y ∈ xs.erase x) : (range x).Apart (range y) := by
  induction xs with
  | nil => simp at hx
  | cons z zs ih =>
    obtain ⟨hz, hzs⟩ := List.pairwise_cons.mp h
    by_cases he : z = x
    · subst he
      rw [List.erase_cons_head] at hy
      exact hz y hy
    · rw [List.erase_cons_tail (by simpa using he)] at hy
      have hx' : x ∈ zs := (List.mem_cons.mp hx).resolve_left fun hh => he hh.symm
      rcases List.mem_cons.mp hy with rfl | hy
      · exact (hz x hx').symm
      · exact ih hzs hx' hy

lemma Separate.apart_of_ne {y : α} (hx : x ∈ xs) (hy : y ∈ xs) (hne : x ≠ y) : (range x).Apart (range y) := by
  induction xs with
  | nil => simp at hx
  | cons z zs ih =>
    obtain ⟨hz, hzs⟩ := List.pairwise_cons.mp h
    rcases List.mem_cons.mp hx with rfl | hx' <;> rcases List.mem_cons.mp hy with rfl | hy'
    · exact (hne rfl).elim
    · exact hz y hy'
    · exact (hz x hx').symm
    · exact ih hzs hx' hy'

end Separate

end Pintos.Foundation
