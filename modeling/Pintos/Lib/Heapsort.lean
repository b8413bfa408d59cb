import Pintos.Foundation.Bytes
import Pintos.Foundation.Heaps
import Pintos.Kernel.Machine

/-! The heapsort of arrays in memory. -/

namespace Pintos.Lib

open Pintos.Foundation Pintos.Kernel

abbrev Elem (size : Nat) := { bs : List Byte // bs.length = size }

def elem (m : Memory) (a size : Nat) : Elem size := ⟨m.read a size, m.length_read a size⟩

def elements (m : Memory) (array cnt size : Nat) : List (Elem size) :=
  (List.range cnt).map fun k => elem m (array + k * size) size

def swapBytes (m : Memory) (a b : Nat) : Nat → Memory
  | 0 => m
  | size + 1 =>
    let t := m a
    swapBytes (Function.update (Function.update m a (m b)) b t) (a + 1) (b + 1) size

def doSwap (m : Memory) (array aIdx bIdx size : Nat) : Memory :=
  swapBytes m (array + (aIdx - 1) * size) (array + (bIdx - 1) * size) size

def doCompare {size : Nat} (m : Memory) (array aIdx bIdx : Nat) (compare : Elem size → Elem size → Int) : Int :=
  compare (elem m (array + (aIdx - 1) * size) size) (elem m (array + (bIdx - 1) * size) size)

def heapMax {size : Nat} (m : Memory) (array i cnt : Nat) (compare : Elem size → Elem size → Int) : Nat :=
  let left := 2 * i
  let right := 2 * i + 1
  let max := if left ≤ cnt ∧ 0 < doCompare m array left i compare then left else i
  if right ≤ cnt ∧ 0 < doCompare m array right max compare then right else max

/-- The elements by the indices that the code counts from 1. -/
def indexed (m : Memory) (array size k : Nat) : Elem size := elem m (array + (k - 1) * size) size

section Heapify

variable {size : Nat} (compare : Elem size → Elem size → Int)

lemma heapMax_eq_largest (m : Memory) (array i cnt : Nat) :
    heapMax m array i cnt compare = largest compare (indexed m array size) cnt i := rfl

def heapify (m : Memory) (array i cnt : Nat) : Memory :=
  let max := heapMax m array i cnt compare
  if max = i then m else heapify (doSwap m array i max size) array max cnt
termination_by cnt - i
decreasing_by
  have hcases := largest_cases compare (indexed m array size) cnt i
  rw [← heapMax_eq_largest] at hcases
  omega

def sortBuild (m : Memory) (array cnt : Nat) : Nat → Memory
  | 0 => m
  | i + 1 => sortBuild (heapify compare m array (i + 1) cnt) array cnt i

def sortExtract (m : Memory) (array : Nat) : Nat → Memory
  | 0 => m
  | 1 => m
  | i + 2 => sortExtract (heapify compare (doSwap m array 1 (i + 2) size) array 1 (i + 1)) array (i + 1)

def sort (m : Memory) (array cnt : Nat) : Except Panic Memory := do
  assertThat (array ≠ 0 ∨ cnt = 0) .sortArray
  assertThat (0 < size) .sortSize
  return sortExtract compare (sortBuild compare m array cnt (cnt / 2)) array cnt

end Heapify

section Swaps

variable {m : Memory} {a b n : Nat}

def swapSource (a b n x : Nat) : Nat :=
  if a ≤ x ∧ x < a + n then b + (x - a) else if b ≤ x ∧ x < b + n then a + (x - b) else x

lemma swapBytes_apply (h : a + n ≤ b ∨ b + n ≤ a) (x : Nat) : swapBytes m a b n x = m (swapSource a b n x) := by
  induction n generalizing m a b with
  | zero =>
    rw [swapBytes, swapSource, if_neg (by omega), if_neg (by omega)]
  | succ n ih =>
    have hstep : ∀ y, Function.update (Function.update m a (m b)) b (m a) y =
        m (if y = b then a else if y = a then b else y) := by
      intro y
      rw [Function.update_apply, Function.update_apply]
      split_ifs <;> rfl
    rw [swapBytes, ih (by omega), hstep]
    congr 1
    simp only [swapSource]
    split_ifs <;> omega

lemma elem_eq {m' : Memory} {size : Nat} (h : ∀ t, t < size → m' (a + t) = m (b + t)) :
    elem m' a size = elem m b size := by
  apply Subtype.ext
  apply List.ext_getElem
  · simp [elem]
  · intro t ht ht'
    have hlt : t < size := by simpa [elem] using ht
    simpa only [elem, Memory.getElem_read] using h t hlt

lemma stride_le {i j : Nat} (h : i < j) (size : Nat) : i * size + size ≤ j * size := by
  rw [← Nat.succ_mul]
  exact Nat.mul_le_mul_right size h

lemma stride_apart {i j : Nat} (hi : 1 ≤ i) (hj : 1 ≤ j) (h : i ≠ j) (size : Nat) :
    (i - 1) * size + size ≤ (j - 1) * size ∨ (j - 1) * size + size ≤ (i - 1) * size := by
  rcases Nat.lt_or_gt_of_ne h with h | h
  · exact .inl (stride_le (by omega) size)
  · exact .inr (stride_le (by omega) size)

variable {array size i j : Nat}

lemma doSwap_apply (hi : 1 ≤ i) (hj : 1 ≤ j) (h : i ≠ j) (x : Nat) :
    doSwap m array i j size x = m (swapSource (array + (i - 1) * size) (array + (j - 1) * size) size x) := by
  have hij := stride_apart hi hj h size
  exact swapBytes_apply (by omega) x

lemma indexed_doSwap (hi : 1 ≤ i) (hj : 1 ≤ j) (h : i ≠ j) {k : Nat} (hk : 1 ≤ k) :
    indexed (doSwap m array i j size) array size k = swapped (indexed m array size) i j k := by
  have hij := stride_apart hi hj h size
  by_cases hki : k = i
  · rw [hki, swapped_left]
    refine elem_eq fun t ht => ?_
    rw [doSwap_apply hi hj h, swapSource, if_pos (by omega)]
    congr 1
    omega
  by_cases hkj : k = j
  · rw [hkj, swapped_right]
    refine elem_eq fun t ht => ?_
    rw [doSwap_apply hi hj h, swapSource, if_neg (by omega), if_pos (by omega)]
    congr 1
    omega
  have hik := stride_apart hk hi hki size
  have hjk := stride_apart hk hj hkj size
  rw [swapped_of_ne _ hki hkj]
  refine elem_eq fun t ht => ?_
  rw [doSwap_apply hi hj h, swapSource, if_neg (by omega), if_neg (by omega)]

lemma doSwap_outside {cnt : Nat} (hi : 1 ≤ i) (hj : 1 ≤ j) (h : i ≠ j) (hic : i ≤ cnt) (hjc : j ≤ cnt) {x : Nat}
    (hx : x < array ∨ array + cnt * size ≤ x) : doSwap m array i j size x = m x := by
  have hfirst := stride_le (show i - 1 < cnt by omega) size
  have hsecond := stride_le (show j - 1 < cnt by omega) size
  rw [doSwap_apply hi hj h, swapSource, if_neg (by omega), if_neg (by omega)]

end Swaps

section Correct

variable {size : Nat} {compare : Elem size → Elem size → Int} {m : Memory} {array cnt : Nat}

structure Holds (m₀ m : Memory) (array cnt : Nat) (f : Nat → Elem size) : Prop where
  same : ∀ k, 1 ≤ k → indexed m array size k = f k
  rest : ∀ x, x < array ∨ array + cnt * size ≤ x → m x = m₀ x

variable {m₀ : Memory} {f : Nat → Elem size} {i : Nat}

section

variable (h : Holds m₀ m array cnt f)

include h

lemma Holds.swap {j : Nat} (hi : 1 ≤ i ∧ i ≤ cnt) (hj : 1 ≤ j ∧ j ≤ cnt) (hne : i ≠ j) :
    Holds m₀ (doSwap m array i j size) array cnt (swapped f i j) where
  same k hk := by
    rw [indexed_doSwap hi.1 hj.1 hne hk]
    exact swapped_congr (h.same i hi.1) (h.same j hj.1) (h.same k hk)
  rest x hx := by
    rw [doSwap_outside hi.1 hj.1 hne hi.2 hj.2 hx]
    exact h.rest x hx

lemma Holds.heapMax_eq (hi : 1 ≤ i) (n : Nat) : heapMax m array i n compare = largest compare f n i := by
  rw [heapMax_eq_largest]
  exact largest_congr compare (fun k hk => h.same k (by omega)) n

lemma Holds.heapify {n : Nat} (hi : 1 ≤ i) (hn : n ≤ cnt) :
    Holds m₀ (heapify compare m array i n) array cnt (siftDown compare f n i) := by
  fun_induction siftDown compare f n i generalizing m with
  | case1 f i he =>
    rw [Lib.heapify, h.heapMax_eq hi, if_pos he]
    exact h
  | case2 f i hne ih =>
    have hcases := largest_cases compare f n i
    rw [Lib.heapify, h.heapMax_eq hi, if_neg hne]
    exact ih (h.swap (by omega) (by omega) (Ne.symm hne)) (by omega)

lemma Holds.sortBuild (i : Nat) :
    Holds m₀ (sortBuild compare m array cnt i) array cnt (buildHeap compare f cnt i) := by
  induction i generalizing m f with
  | zero => exact h
  | succ i ih => exact ih (h.heapify (by omega) le_rfl)

lemma Holds.sortExtract (hi : i ≤ cnt) :
    Holds m₀ (sortExtract compare m array i) array cnt (sortHeap compare f i) := by
  fun_induction sortHeap compare f i generalizing m with
  | case1 f => exact h
  | case2 f => exact h
  | case3 f i ih => exact ih ((h.swap (by omega) (by omega) (by omega)).heapify le_rfl (by omega)) (by omega)

lemma Holds.elements_eq_map : elements m array cnt size = (List.range' 1 cnt).map f := by
  rw [elements, List.range'_eq_map_range, List.map_map]
  apply List.map_congr_left
  intro k hk
  rw [Function.comp_apply, ← h.same (1 + k) (by omega), indexed, Nat.add_sub_cancel_left]

end

theorem sort_sorts (h : Compares compare) (m : Memory) {array cnt : Nat} (ha : array ≠ 0 ∨ cnt = 0) (hs : 0 < size) :
    ∃ m', sort compare m array cnt = .ok m' ∧ (elements m' array cnt size).Perm (elements m array cnt size) ∧
      (elements m' array cnt size).Pairwise (fun a b => compare a b ≤ 0) ∧
      ∀ x, x < array ∨ array + cnt * size ≤ x → m' x = m x := by
  have hstart : Holds m m array cnt (indexed m array size) := ⟨fun _ _ => rfl, fun _ _ => rfl⟩
  have hend : Holds m (sortExtract compare (sortBuild compare m array cnt (cnt / 2)) array cnt) array cnt
      (heapSort compare (indexed m array size) cnt) := (hstart.sortBuild (cnt / 2)).sortExtract le_rfl
  refine ⟨_, ?_, ?_, ?_, hend.rest⟩
  · rw [sort, assertThat_pos ha, assertThat_pos hs]
    rfl
  · rw [hend.elements_eq_map, hstart.elements_eq_map]
    exact (rearranged_heapSort _ cnt).perm
  · rw [hend.elements_eq_map, List.pairwise_map]
    apply List.Pairwise.imp_of_mem _ List.pairwise_lt_range'
    intro j k hj hk hjk
    rw [List.mem_range'_1] at hj hk
    exact heapSort_sorted h _ hj.1 (by omega) (by omega)

def byteOrder (a b : Elem 1) : Int := (a.1.headD 0).toNat - (b.1.headD 0).toNat

lemma compares_byteOrder : Compares byteOrder where
  swap a b := by
    simp only [byteOrder]
    omega
  trans a b c hab hbc := by
    simp only [byteOrder] at *
    omega

theorem sort_sorts_two_bytes :
    ∃ m', sort byteOrder (Memory.write (fun _ => 0) 8 [2, 1]) 8 2 = .ok m' ∧
      (elements m' 8 2 1).Perm (elements (Memory.write (fun _ => 0) 8 [2, 1]) 8 2 1) ∧
      (elements m' 8 2 1).Pairwise (fun a b => byteOrder a b ≤ 0) ∧
      ∀ x, x < 8 ∨ 8 + 2 * 1 ≤ x → m' x = Memory.write (fun _ => 0) 8 [2, 1] x :=
  sort_sorts compares_byteOrder _ (.inl (by decide)) (by decide)

end Correct

end Pintos.Lib
