import Pintos.Lib.Heapsort

/-! The binary search in sorted arrays. -/

namespace Pintos.Lib

open Pintos.Foundation Pintos.Kernel

lemma halving {size : Nat} (hs : 0 < size) {first last : Nat} (h : first < last) :
    first + (last - first) / size / 2 * size < last := by
  have hquot := Nat.div_mul_le_self (last - first) size
  rcases Nat.eq_zero_or_pos ((last - first) / size) with h0 | hpos
  · rw [h0]
    omega
  · have hlt : (last - first) / size / 2 * size < (last - first) / size * size :=
      Nat.mul_lt_mul_of_pos_right (by omega) hs
    omega

def visited (p : Nat) (r : Nat × List Nat) : Nat × List Nat := (r.1, p :: r.2)

/-- The loop of the search: the pointer it answers, 0 for none, and the elements it compares with the key. -/
def searchLoop {size : Nat} (hs : 0 < size) (compare : Elem size → Elem size → Int) (m : Memory) (key : Elem size)
    (first last : Nat) : Nat × List Nat :=
  if first < last then
    let range := (last - first) / size
    let middle := first + range / 2 * size
    let cmp := compare key (elem m middle size)
    if cmp < 0 then visited middle (searchLoop hs compare m key first middle)
    else if 0 < cmp then visited middle (searchLoop hs compare m key (middle + size) last)
    else (middle, [middle])
  else (0, [])
termination_by last - first
decreasing_by
  · next h _ => exact Nat.sub_lt_sub_right (Nat.le_add_right _ _) (halving hs h)
  · next h _ _ =>
    exact Nat.sub_lt_sub_left h (Nat.lt_of_le_of_lt (Nat.le_add_right first _) (Nat.lt_add_of_pos_right hs))

def binarySearch {size : Nat} (hs : 0 < size) (compare : Elem size → Elem size → Int) (m : Memory) (key : Elem size)
    (array cnt : Nat) : Nat × List Nat :=
  searchLoop hs compare m key array (array + size * cnt)

section Correct

variable {size : Nat} {compare : Elem size → Elem size → Int} {m : Memory} {key : Elem size} {array cnt : Nat}

structure Searched (compare : Elem size → Elem size → Int) (m : Memory) (key : Elem size) (array cnt : Nat)
    (r : Nat × List Nat) : Prop where
  reads : ∀ p ∈ r.2, ∃ k < cnt, p = array + k * size
  answer : (∃ k < cnt, r.1 = array + k * size ∧ compare key (elem m (array + k * size) size) = 0) ∨
    r.1 = 0 ∧ ∀ k < cnt, compare key (elem m (array + k * size) size) ≠ 0

structure Narrowed (compare : Elem size → Elem size → Int) (m : Memory) (key : Elem size) (array cnt lo hi : Nat) :
    Prop where
  inside : hi ≤ cnt
  before : ∀ k < lo, 0 < compare key (elem m (array + k * size) size)
  after : ∀ k < cnt, hi ≤ k → compare key (elem m (array + k * size) size) < 0

lemma Searched.visited {r : Nat × List Nat} (h : Searched compare m key array cnt r) {k : Nat} (hk : k < cnt) :
    Searched compare m key array cnt (visited (array + k * size) r) where
  reads p hp := by
    rcases List.mem_cons.mp hp with rfl | hp
    · exact ⟨k, hk, rfl⟩
    · exact h.reads p hp
  answer := h.answer

def SortedArray (compare : Elem size → Elem size → Int) (m : Memory) (array cnt : Nat) : Prop :=
  (elements m array cnt size).Pairwise fun a b => compare a b ≤ 0

section

variable (h : Compares compare) (hm : SortedArray compare m array cnt)

include h hm

lemma SortedArray.le {j k : Nat} (hjk : j ≤ k)
    (hk : k < cnt) : compare (elem m (array + j * size) size) (elem m (array + k * size) size) ≤ 0 := by
  rcases Nat.eq_or_lt_of_le hjk with rfl | hlt
  · exact h.refl _
  · have hpair := List.pairwise_iff_getElem.mp hm j k (by simpa [elements] using by omega)
      (by simpa [elements] using hk) hlt
    simpa [elements] using hpair

variable {hi lo : Nat}

lemma Narrowed.lower {middle : Nat} (hn : Narrowed compare m key array cnt lo hi) (hin : middle < hi)
    (hcmp : compare key (elem m (array + middle * size) size) < 0) : Narrowed compare m key array cnt lo middle where
  inside := by have := hn.inside; omega
  before := hn.before
  after k hk hmk := by
    by_contra hge
    have hle : compare (elem m (array + k * size) size) key ≤ 0 := not_lt.mp fun hpos => hge ((h.swap _ _).mp hpos)
    have hmid := h.trans _ _ _ (hm.le h hmk hk) hle
    have hpos := (h.swap (elem m (array + middle * size) size) key).mpr hcmp
    omega

lemma Narrowed.upper {middle : Nat} (hn : Narrowed compare m key array cnt lo hi) (hin : middle < hi)
    (hcmp : 0 < compare key (elem m (array + middle * size) size)) :
    Narrowed compare m key array cnt (middle + 1) hi where
  inside := hn.inside
  before k hk := by
    have hinside := hn.inside
    by_contra hle
    have hmid := h.trans _ _ _ (not_lt.mp hle) (hm.le h (show k ≤ middle by omega) (by omega))
    omega
  after := hn.after

end

lemma middle_eq (hs : 0 < size) {array first last : Nat} (hfirst : array + lo * size = first)
    (hlast : array + hi * size = last) (h : first < last) :
    ∃ middle, lo ≤ middle ∧ middle < hi ∧ first + (last - first) / size / 2 * size = array + middle * size := by
  have hlt : lo < hi := Nat.lt_of_mul_lt_mul_right (a := size) (by omega)
  have hrange : (last - first) / size = hi - lo := by
    rw [← hfirst, ← hlast, Nat.add_sub_add_left, ← Nat.sub_mul, Nat.mul_div_cancel _ hs]
  refine ⟨lo + (hi - lo) / 2, by omega, by omega, ?_⟩
  rw [hrange, ← hfirst, Nat.add_mul, Nat.add_assoc]

lemma searchLoop_searched (hs : 0 < size) (h : Compares compare) (hm : SortedArray compare m array cnt)
    (hn : Narrowed compare m key array cnt lo hi) :
    Searched compare m key array cnt (searchLoop hs compare m key (array + lo * size) (array + hi * size)) := by
  generalize hfirst : array + lo * size = first
  generalize hlast : array + hi * size = last
  fun_induction searchLoop hs compare m key first last generalizing lo hi
  case case1 first last hlt range middle cmp hneg ih =>
    obtain ⟨k, hk, hkhi, hmiddle⟩ := middle_eq hs hfirst hlast hlt
    change middle = array + k * size at hmiddle
    rw [hmiddle] at ih ⊢
    exact (ih (hn.lower h hm hkhi (hmiddle ▸ hneg)) hfirst rfl).visited (hkhi.trans_le hn.inside)
  case case2 first last hlt range middle cmp hneg hpos ih =>
    obtain ⟨k, hk, hkhi, hmiddle⟩ := middle_eq hs hfirst hlast hlt
    change middle = array + k * size at hmiddle
    rw [hmiddle] at ih ⊢
    have hnext : array + (k + 1) * size = array + k * size + size := by rw [Nat.succ_mul, Nat.add_assoc]
    exact (ih (hn.upper h hm hkhi (hmiddle ▸ hpos)) hnext hlast).visited (hkhi.trans_le hn.inside)
  case case3 first last hlt range middle cmp hneg hpos =>
    obtain ⟨k, hk, hkhi, hmiddle⟩ := middle_eq hs hfirst hlast hlt
    change middle = array + k * size at hmiddle
    have hzero : compare key (elem m middle size) = 0 := by omega
    rw [hmiddle] at hzero ⊢
    exact ⟨fun p hp => ⟨k, hkhi.trans_le hn.inside, List.mem_singleton.mp hp⟩,
      .inl ⟨k, hkhi.trans_le hn.inside, rfl, hzero⟩⟩
  case case4 first last hge =>
    have hle : hi ≤ lo := by
      by_contra hlt
      have hmul := Nat.mul_lt_mul_of_pos_right (not_le.mp hlt) hs
      omega
    refine ⟨fun p hp => (nomatch hp), .inr ⟨rfl, fun k hk => ?_⟩⟩
    rcases Nat.lt_or_ge k lo with hlo | hlo
    · exact (hn.before k hlo).ne'
    · exact (hn.after k hk (hle.trans hlo)).ne

lemma forall_mem_elements {P : Elem size → Prop} :
    (∀ e ∈ elements m array cnt size, P e) ↔ ∀ k < cnt, P (elem m (array + k * size) size) := by
  simp [elements]

theorem binarySearch_finds (hs : 0 < size) (h : Compares compare) (ha : array ≠ 0 ∨ cnt = 0)
    (hm : SortedArray compare m array cnt) (key : Elem size) :
    (∀ p ∈ (binarySearch hs compare m key array cnt).2, ∃ k < cnt, p = array + k * size) ∧
      ((∃ e ∈ elements m array cnt size, compare key e = 0) →
        ∃ k < cnt, (binarySearch hs compare m key array cnt).1 = array + k * size ∧
          compare key (elem m (array + k * size) size) = 0) ∧
      ((binarySearch hs compare m key array cnt).1 = 0 ↔ ∀ e ∈ elements m array cnt size, compare key e ≠ 0) := by
  have hall : Narrowed compare m key array cnt 0 cnt := ⟨le_rfl, fun k hk => by omega, fun k hk hle => by omega⟩
  have hsearched := searchLoop_searched hs h hm hall
  rw [Nat.zero_mul, Nat.add_zero, Nat.mul_comm cnt] at hsearched
  change Searched compare m key array cnt (binarySearch hs compare m key array cnt) at hsearched
  refine ⟨hsearched.reads, ?_⟩
  rw [forall_mem_elements]
  rcases hsearched.answer with hfound | ⟨hnull, hnone⟩
  · refine ⟨fun _ => hfound, fun hnull => ?_, fun hnone => ?_⟩
    · obtain ⟨k, hk, hp, -⟩ := hfound
      omega
    · obtain ⟨k, hk, -, hzero⟩ := hfound
      exact absurd hzero (hnone k hk)
  · refine ⟨fun hsome => ?_, fun _ => hnone, fun _ => hnull⟩
    obtain ⟨e, he, hzero⟩ := hsome
    have hne : ∀ e ∈ elements m array cnt size, compare key e ≠ 0 := forall_mem_elements.mpr hnone
    exact absurd hzero (hne e he)

theorem binarySearch_finds_byte :
    SortedArray byteOrder (Memory.write (fun _ => 0) 8 [1, 2]) 8 2 ∧
      ((binarySearch Nat.one_pos byteOrder (Memory.write (fun _ => 0) 8 [1, 2]) ⟨[3], rfl⟩ 8 2).1 = 0 ↔
        ∀ e ∈ elements (Memory.write (fun _ => 0) 8 [1, 2]) 8 2 1, byteOrder ⟨[3], rfl⟩ e ≠ 0) := by
  have hm : SortedArray byteOrder (Memory.write (fun _ => 0) 8 [1, 2]) 8 2 := by
    unfold SortedArray
    decide +kernel
  exact ⟨hm, (binarySearch_finds Nat.one_pos compares_byteOrder (.inl (by decide)) hm ⟨[3], rfl⟩).2.2⟩

end Correct

end Pintos.Lib
