import Mathlib.Algebra.Order.Ring.Int
import Mathlib.Data.List.Perm.Basic
import Mathlib.Data.List.Nodup
import Mathlib.Data.List.Range
import Mathlib.Logic.Equiv.Basic

/-! Heaps in arrays that count from 1, and sorting by them. -/

namespace Pintos.Foundation

structure Compares {α : Type*} (compare : α → α → Int) : Prop where
  swap : ∀ a b, 0 < compare a b ↔ compare b a < 0
  trans : ∀ a b c, compare a b ≤ 0 → compare b c ≤ 0 → compare a c ≤ 0

namespace Compares

variable {α : Type*} {compare : α → α → Int}

lemma le_of_pos (h : Compares compare) {a b : α} (hab : 0 < compare a b) : compare b a ≤ 0 :=
  le_of_lt ((h.swap a b).mp hab)

lemma refl (h : Compares compare) (a : α) : compare a a ≤ 0 := by
  by_contra hpos
  have hneg := (h.swap a a).mp (not_le.mp hpos)
  omega

end Compares

section Heap

variable {α : Type*} (compare : α → α → Int)

def swapped (f : Nat → α) (i j : Nat) : Nat → α := f ∘ Equiv.swap i j

def larger (f : Nat → α) (cnt i j : Nat) : Nat := if j ≤ cnt ∧ 0 < compare (f j) (f i) then j else i

def largest (f : Nat → α) (cnt i : Nat) : Nat := larger compare f cnt (larger compare f cnt i (2 * i)) (2 * i + 1)

lemma larger_cases (f : Nat → α) (cnt i j : Nat) :
    larger compare f cnt i j = i ∨ larger compare f cnt i j = j ∧ j ≤ cnt := by
  rw [larger]
  split
  · next h => exact .inr ⟨rfl, h.1⟩
  · exact .inl rfl

lemma largest_cases (f : Nat → α) (cnt i : Nat) :
    largest compare f cnt i = i ∨
      (largest compare f cnt i = 2 * i ∨ largest compare f cnt i = 2 * i + 1) ∧ largest compare f cnt i ≤ cnt := by
  have hleft := larger_cases compare f cnt i (2 * i)
  have hright := larger_cases compare f cnt (larger compare f cnt i (2 * i)) (2 * i + 1)
  rw [largest]
  omega

variable {j : Nat} {g : Nat → α}

lemma larger_congr {f : Nat → α} {i : Nat} (hi : f i = g i) (hj : f j = g j) (cnt : Nat) :
    larger compare f cnt i j = larger compare g cnt i j := by
  rw [larger, larger, hi, hj]

lemma largest_congr {f : Nat → α} {i : Nat} (h : ∀ k, i ≤ k → f k = g k) (cnt : Nat) :
    largest compare f cnt i = largest compare g cnt i := by
  have hcases := larger_cases compare g cnt i (2 * i)
  rw [largest, larger_congr compare (h i le_rfl) (h (2 * i) (by omega))]
  exact larger_congr compare (h _ (by omega)) (h _ (by omega)) cnt

def siftDown (f : Nat → α) (cnt i : Nat) : Nat → α :=
  if largest compare f cnt i = i then f
  else siftDown (swapped f i (largest compare f cnt i)) cnt (largest compare f cnt i)
termination_by cnt - i
decreasing_by
  have hcases := largest_cases compare f cnt i
  omega

abbrev IsChild (c k : Nat) : Prop := c = 2 * k ∨ c = 2 * k + 1

def HeapFrom (f : Nat → α) (lo cnt : Nat) : Prop :=
  ∀ k c, lo ≤ k → IsChild c k → c ≤ cnt → compare (f c) (f k) ≤ 0

/-- So it is but for `i`, and the children of `i` are no larger than its parent. -/
structure HeapBut (f : Nat → α) (lo cnt i : Nat) : Prop where
  order : ∀ k c, lo ≤ k → k ≠ i → IsChild c k → c ≤ cnt → compare (f c) (f k) ≤ 0
  above : ∀ k c, lo ≤ k → IsChild i k → IsChild c i → c ≤ cnt → compare (f c) (f k) ≤ 0

variable {compare} {f : Nat → α} {lo cnt i : Nat}

lemma swapped_left (f : Nat → α) (i j : Nat) : swapped f i j i = f j := by
  rw [swapped, Function.comp_apply, Equiv.swap_apply_left]

lemma swapped_right (f : Nat → α) (i j : Nat) : swapped f i j j = f i := by
  rw [swapped, Function.comp_apply, Equiv.swap_apply_right]

lemma swapped_of_ne (f : Nat → α) {i k : Nat} (hi : k ≠ i) (hj : k ≠ j) : swapped f i j k = f k := by
  rw [swapped, Function.comp_apply, Equiv.swap_apply_of_ne_of_ne hi hj]

lemma swapped_congr {f : Nat → α} {i k : Nat} (hi : f i = g i) (hj : f j = g j) (hk : f k = g k) :
    swapped f i j k = swapped g i j k := by
  by_cases hki : k = i
  · rw [hki, swapped_left, swapped_left, hj]
  by_cases hkj : k = j
  · rw [hkj, swapped_right, swapped_right, hi]
  rw [swapped_of_ne f hki hkj, swapped_of_ne g hki hkj, hk]

lemma larger_ge (h : Compares compare) (f : Nat → α) (cnt i j : Nat) :
    compare (f i) (f (larger compare f cnt i j)) ≤ 0 ∧
      (j ≤ cnt → compare (f j) (f (larger compare f cnt i j)) ≤ 0) := by
  rw [larger]
  split
  · next hj => exact ⟨h.le_of_pos hj.2, fun _ => h.refl _⟩
  · next hj => exact ⟨h.refl _, fun hle => not_lt.mp fun hpos => hj ⟨hle, hpos⟩⟩

lemma largest_ge (h : Compares compare) (f : Nat → α) (cnt i : Nat) :
    compare (f i) (f (largest compare f cnt i)) ≤ 0 ∧
      ∀ c, IsChild c i → c ≤ cnt → compare (f c) (f (largest compare f cnt i)) ≤ 0 := by
  obtain ⟨hi, hleft⟩ := larger_ge h f cnt i (2 * i)
  obtain ⟨hmax, hright⟩ := larger_ge h f cnt (larger compare f cnt i (2 * i)) (2 * i + 1)
  refine ⟨h.trans _ _ _ hi hmax, fun c hc hle => ?_⟩
  rcases hc with rfl | rfl
  · exact h.trans _ _ _ (hleft hle) hmax
  · exact hright hle

variable (h : Compares compare) (hf : HeapBut compare f lo cnt i)

include h hf

lemma HeapBut.step (hlo : lo ≤ i) (hi : 1 ≤ i) (hne : largest compare f cnt i ≠ i) :
    HeapBut compare (swapped f i (largest compare f cnt i)) lo cnt (largest compare f cnt i) := by
  obtain ⟨hself, hchild⟩ := largest_ge h f cnt i
  have hcases := largest_cases compare f cnt i
  generalize largest compare f cnt i = max at *
  have hmax : IsChild max i := (hcases.resolve_left hne).1
  have hin : max ≤ cnt := (hcases.resolve_left hne).2
  constructor
  · intro k c hk hkm hck hc
    by_cases hki : k = i
    · subst hki
      rw [swapped_left]
      by_cases hcm : c = max
      · rw [hcm, swapped_right]
        exact hself
      · rw [swapped_of_ne f (by omega) hcm]
        exact hchild c hck hc
    · rw [swapped_of_ne f hki hkm]
      by_cases hci : c = i
      · rw [hci, swapped_left]
        exact hf.above k max hk (hci ▸ hck) hmax hin
      · rw [swapped_of_ne f hci (by omega)]
        exact hf.order k c hk hki hck hc
  · intro k c hk hmk hcm hc
    obtain rfl : k = i := by omega
    rw [swapped_left, swapped_of_ne f (by omega) (by omega)]
    exact hf.order max c (by omega) hne hcm hc

lemma HeapBut.stop (he : largest compare f cnt i = i) : HeapFrom compare f lo cnt := by
  intro k c hk hck hc
  by_cases hki : k = i
  · have hchild := (largest_ge h f cnt i).2 c (hki ▸ hck) hc
    rwa [he, ← hki] at hchild
  · exact hf.order k c hk hki hck hc

lemma heapFrom_siftDown (hlo : lo ≤ i) (hi : 1 ≤ i) : HeapFrom compare (siftDown compare f cnt i) lo cnt := by
  fun_induction siftDown compare f cnt i with
  | case1 f i he => exact hf.stop h he
  | case2 f i hne ih =>
    have hcases := largest_cases compare f cnt i
    exact ih (hf.step h hlo hi hne) (by omega) (by omega)

end Heap

def Rearranged {α : Type*} (f g : Nat → α) (lo hi : Nat) : Prop :=
  ∃ σ : Equiv.Perm Nat, (∀ k, k < lo ∨ hi < k → σ k = k) ∧ g = f ∘ σ

namespace Rearranged

variable {α : Type*} {f g h : Nat → α} {lo lo' hi hi' : Nat}

lemma refl (f : Nat → α) (lo hi : Nat) : Rearranged f f lo hi :=
  ⟨Equiv.refl _, fun _ _ => rfl, rfl⟩

lemma swap {i j : Nat} (h : lo ≤ i ∧ i ≤ hi) (h' : lo ≤ j ∧ j ≤ hi) : Rearranged f (swapped f i j) lo hi :=
  ⟨Equiv.swap i j, fun _ _ => Equiv.swap_apply_of_ne_of_ne (by omega) (by omega), rfl⟩

lemma mono (hfg : Rearranged f g lo hi) (hlo : lo' ≤ lo) (hhi : hi ≤ hi') : Rearranged f g lo' hi' := by
  obtain ⟨σ, hσ, rfl⟩ := hfg
  exact ⟨σ, fun k hk => hσ k (by omega), rfl⟩

lemma trans (hfg : Rearranged f g lo hi) (hgh : Rearranged g h lo hi) : Rearranged f h lo hi := by
  obtain ⟨σ, hσ, rfl⟩ := hfg
  obtain ⟨τ, hτ, rfl⟩ := hgh
  refine ⟨τ.trans σ, fun k hk => ?_, rfl⟩
  rw [Equiv.trans_apply, hτ k hk, hσ k hk]

lemma outside (hfg : Rearranged f g lo hi) {k : Nat} (hk : k < lo ∨ hi < k) : g k = f k := by
  obtain ⟨σ, hσ, rfl⟩ := hfg
  rw [Function.comp_apply, hσ k hk]

lemma mem_iff {σ : Equiv.Perm Nat} (hσ : ∀ k, k < lo ∨ hi < k → σ k = k) (k : Nat) :
    lo ≤ σ k ∧ σ k ≤ hi ↔ lo ≤ k ∧ k ≤ hi := by
  constructor
  · intro h
    by_contra hout
    have hfix := hσ k (by omega)
    omega
  · intro h
    by_contra hout
    have hfix := σ.injective (hσ (σ k) (by omega))
    omega

lemma inside (hfg : Rearranged f g lo hi) {k : Nat} (hk : lo ≤ k ∧ k ≤ hi) : ∃ j, (lo ≤ j ∧ j ≤ hi) ∧ g k = f j := by
  obtain ⟨σ, hσ, rfl⟩ := hfg
  exact ⟨σ k, (mem_iff hσ k).mpr hk, rfl⟩

lemma perm {n : Nat} (hfg : Rearranged f g 1 n) : ((List.range' 1 n).map g).Perm ((List.range' 1 n).map f) := by
  obtain ⟨σ, hσ, rfl⟩ := hfg
  rw [← List.map_map]
  apply List.Perm.map
  apply (List.perm_ext_iff_of_nodup ((List.nodup_map_iff σ.injective).mpr List.nodup_range') List.nodup_range').mpr
  intro x
  have hx := mem_iff hσ (σ.symm x)
  rw [Equiv.apply_symm_apply] at hx
  simp only [List.mem_map, List.mem_range'_1]
  constructor
  · rintro ⟨k, hk, rfl⟩
    have hin := (mem_iff hσ k).mpr (by omega)
    omega
  · intro hin
    exact ⟨σ.symm x, by omega, σ.apply_symm_apply x⟩

end Rearranged

section Sorts

variable {α : Type*} (compare : α → α → Int)

def buildHeap (f : Nat → α) (cnt : Nat) : Nat → Nat → α
  | 0 => f
  | i + 1 => buildHeap (siftDown compare f cnt (i + 1)) cnt i

def sortHeap (f : Nat → α) : Nat → Nat → α
  | 0 => f
  | 1 => f
  | i + 2 => sortHeap (siftDown compare (swapped f 1 (i + 2)) (i + 1) 1) (i + 1)

def heapSort (f : Nat → α) (cnt : Nat) : Nat → α := sortHeap compare (buildHeap compare f cnt (cnt / 2)) cnt

structure Sorting (f : Nat → α) (cnt i : Nat) : Prop where
  heap : HeapFrom compare f 1 i
  tail : ∀ j k, i < j → j ≤ k → k ≤ cnt → compare (f j) (f k) ≤ 0
  split : ∀ j k, 1 ≤ j → j ≤ i → i < k → k ≤ cnt → compare (f j) (f k) ≤ 0

variable {compare} {f : Nat → α} {cnt i : Nat}

lemma rearranged_siftDown (f : Nat → α) (cnt i : Nat) : Rearranged f (siftDown compare f cnt i) i cnt := by
  fun_induction siftDown compare f cnt i with
  | case1 f i _ => exact .refl f i cnt
  | case2 f i hne ih =>
    have hcases := largest_cases compare f cnt i
    have hswap : Rearranged f (swapped f i (largest compare f cnt i)) i cnt := .swap (by omega) (by omega)
    exact hswap.trans (ih.mono (by omega) le_rfl)

variable {k : Nat}

lemma HeapFrom.le_root (h : Compares compare) (hf : HeapFrom compare f 1 cnt) (hk : 1 ≤ k) (hc : k ≤ cnt) :
    compare (f k) (f 1) ≤ 0 := by
  induction k using Nat.strongRecOn with
  | ind k ih =>
    by_cases hroot : k = 1
    · rw [hroot]
      exact h.refl _
    · exact h.trans _ _ _ (hf (k / 2) k (by omega) (by omega) hc) (ih (k / 2) (by omega) (by omega) (by omega))

lemma HeapFrom.but (hf : HeapFrom compare f (i + 1) cnt) (hi : 1 ≤ i) : HeapBut compare f i cnt i where
  order k c hk hne hck hc := hf k c (by omega) hck hc
  above k c hk hik hck hc := by omega

lemma HeapFrom.but_root (hf : HeapFrom compare f 1 (i + 1)) : HeapBut compare (swapped f 1 (i + 1)) 1 i 1 where
  order k c hk hne hck hc := by
    rw [swapped_of_ne f (by omega) (by omega), swapped_of_ne f hne (by omega)]
    exact hf k c hk hck (by omega)
  above k c hk hik hck hc := by omega

lemma heapFrom_buildHeap (h : Compares compare) (hf : HeapFrom compare f (i + 1) cnt) :
    HeapFrom compare (buildHeap compare f cnt i) 1 cnt := by
  induction i generalizing f with
  | zero => exact hf
  | succ i ih =>
    rw [buildHeap]
    exact ih (heapFrom_siftDown h (hf.but (by omega)) le_rfl (by omega))

lemma rearranged_buildHeap (f : Nat → α) (cnt i : Nat) : Rearranged f (buildHeap compare f cnt i) 1 cnt := by
  induction i generalizing f with
  | zero => exact .refl f 1 cnt
  | succ i ih =>
    rw [buildHeap]
    exact ((rearranged_siftDown f cnt (i + 1)).mono (by omega) le_rfl).trans (ih _)

lemma rearranged_turn (f : Nat → α) (hi : 1 ≤ i) :
    Rearranged f (siftDown compare (swapped f 1 (i + 1)) i 1) 1 (i + 1) :=
  (Rearranged.swap (by omega) (by omega)).trans ((rearranged_siftDown _ i 1).mono le_rfl (by omega))

lemma Sorting.step (h : Compares compare) (hf : Sorting compare f cnt (i + 1)) (hi : 1 ≤ i) :
    Sorting compare (siftDown compare (swapped f 1 (i + 1)) i 1) cnt i := by
  have hturn : Rearranged f (siftDown compare (swapped f 1 (i + 1)) i 1) 1 (i + 1) := rearranged_turn f hi
  have hmax : siftDown compare (swapped f 1 (i + 1)) i 1 (i + 1) = f 1 := by
    rw [(rearranged_siftDown _ i 1).outside (.inr (by omega)), swapped_right]
  refine ⟨heapFrom_siftDown h hf.heap.but_root le_rfl le_rfl, ?_, ?_⟩
  · intro j k hj hjk hk
    by_cases hki : k = i + 1
    · rw [show j = k by omega]
      exact h.refl _
    · rw [hturn.outside (.inr (show i + 1 < k by omega))]
      by_cases hji : j = i + 1
      · rw [hji, hmax]
        exact hf.split 1 k le_rfl (by omega) (by omega) hk
      · rw [hturn.outside (.inr (show i + 1 < j by omega))]
        exact hf.tail j k (by omega) hjk hk
  · intro j k hj hji hik hk
    obtain ⟨j', hj', he⟩ := hturn.inside (k := j) (by omega)
    rw [he]
    by_cases hki : k = i + 1
    · rw [hki, hmax]
      exact hf.heap.le_root h hj'.1 hj'.2
    · rw [hturn.outside (.inr (show i + 1 < k by omega))]
      exact hf.split j' k hj'.1 hj'.2 (by omega) hk

lemma sortHeap_sorted (h : Compares compare) (hf : Sorting compare f cnt i) {j : Nat} (hj : 1 ≤ j) (hjk : j ≤ k)
    (hk : k ≤ cnt) : compare (sortHeap compare f i j) (sortHeap compare f i k) ≤ 0 := by
  fun_induction sortHeap compare f i with
  | case1 f => exact hf.tail j k (by omega) hjk hk
  | case2 f =>
    by_cases hk1 : k = 1
    · rw [show j = k by omega]
      exact h.refl _
    · by_cases hj1 : j = 1
      · exact hf.split j k hj (by omega) (by omega) hk
      · exact hf.tail j k (by omega) hjk hk
  | case3 f i ih => exact ih (hf.step h (by omega))

lemma rearranged_sortHeap (f : Nat → α) (i : Nat) : Rearranged f (sortHeap compare f i) 1 i := by
  fun_induction sortHeap compare f i with
  | case1 f => exact .refl f 1 0
  | case2 f => exact .refl f 1 1
  | case3 f i ih => exact (rearranged_turn f (by omega)).trans (ih.mono le_rfl (by omega))

lemma rearranged_heapSort (f : Nat → α) (cnt : Nat) : Rearranged f (heapSort compare f cnt) 1 cnt :=
  (rearranged_buildHeap f cnt (cnt / 2)).trans (rearranged_sortHeap _ cnt)

lemma heapSort_sorted (h : Compares compare) (f : Nat → α) {j : Nat} (hj : 1 ≤ j) (hjk : j ≤ k) (hk : k ≤ cnt) :
    compare (heapSort compare f cnt j) (heapSort compare f cnt k) ≤ 0 := by
  -- the back half of the array has no children, so it is a heap already
  have hback : HeapFrom compare f (cnt / 2 + 1) cnt := fun _ _ _ _ _ => by omega
  have hheap := heapFrom_buildHeap h hback
  have hsorting : Sorting compare (buildHeap compare f cnt (cnt / 2)) cnt cnt :=
    ⟨hheap, fun _ _ _ _ _ => by omega, fun _ _ _ _ _ _ => by omega⟩
  exact sortHeap_sorted h hsorting hj hjk hk

end Sorts

end Pintos.Foundation
