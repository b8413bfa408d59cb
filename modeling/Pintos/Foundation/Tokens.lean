import Mathlib.Data.List.Basic
import Mathlib.Data.List.TakeWhile

/-! The maximal runs of the elements of a list that satisfy a predicate, and where they start. -/

namespace Pintos.Foundation

variable {α : Type*} (p : α → Bool)

def runs (xs : List α) : List (List α) :=
  (xs.splitOnP fun x => !p x).filter fun r => !r.isEmpty

/-- The positions, counted from `k`, where a run starts; `prev` tells whether the element before the
list belongs to a run. -/
def starts (prev : Bool) (k : Nat) : List α → List Nat
  | [] => []
  | x :: xs => if p x && !prev then k :: starts (p x) (k + 1) xs else starts (p x) (k + 1) xs

lemma splitOnP_starts (prev : Bool) (k : Nat) (xs ys : List α) (h : ys.drop k = xs) :
    ∃ rest, xs.splitOnP (fun x => !p x) = xs.takeWhile p :: rest ∧
      (starts p prev k xs).map (fun j => (ys.drop j).takeWhile p) =
        (if prev then rest else xs.takeWhile p :: rest).filter fun r => !r.isEmpty := by
  induction xs generalizing prev k with
  | nil => exact ⟨[], by simp [List.splitOnP_nil], by cases prev <;> simp [starts]⟩
  | cons x xs ih =>
    have htail : ys.drop (k + 1) = xs := by
      rw [← List.drop_drop, h]
      rfl
    obtain ⟨rest, hsplit, hmap⟩ := ih (p x) (k + 1) htail
    rw [List.splitOnP_cons_eq_if_modifyHead, hsplit]
    by_cases hx : p x = true
    · refine ⟨rest, by simp [hx], ?_⟩
      rw [hx] at hmap
      cases prev with
      | true => simpa [starts, hx] using hmap
      | false => simpa [starts, hx, h] using hmap
    · simp only [Bool.not_eq_true] at hx
      refine ⟨xs.takeWhile p :: rest, by simp [hx], ?_⟩
      rw [hx] at hmap
      cases prev <;> simpa [starts, hx] using hmap

lemma runs_eq (xs : List α) :
    runs p xs = (starts p false 0 xs).map fun k => (xs.drop k).takeWhile p := by
  obtain ⟨rest, hsplit, hmap⟩ := splitOnP_starts p false 0 xs xs rfl
  rw [runs, hsplit, hmap]
  rfl

lemma starts_cons (prev : Bool) (k : Nat) (x : α) (xs : List α) :
    starts p prev k (x :: xs) = (if p x && !prev then [k] else []) ++ starts p (p x) (k + 1) xs := by
  rw [starts]
  split <;> rfl

variable {xs : List α}

lemma le_of_mem_starts {prev : Bool} {k j : Nat} (h : j ∈ starts p prev k xs) :
    k ≤ j ∧ j < k + xs.length := by
  induction xs generalizing prev k with
  | nil => simp [starts] at h
  | cons x xs ih =>
    rw [starts_cons, List.mem_append] at h
    rcases h with h | h
    · split at h
      · obtain rfl := List.mem_singleton.mp h
        simp
      · simp at h
    · obtain ⟨hle, hlt⟩ := ih h
      simp only [List.length_cons]
      omega

lemma starts_map {β : Type*} (f : β → α) (prev : Bool) (k : Nat) (xs : List β) :
    starts p prev k (xs.map f) = starts (fun x => p (f x)) prev k xs := by
  induction xs generalizing prev k with
  | nil => rfl
  | cons x xs ih => rw [List.map_cons, starts_cons, starts_cons, ih]

lemma starts_congr {q : α → Bool} (h : ∀ x ∈ xs, p x = q x) (prev : Bool) (k : Nat) :
    starts p prev k xs = starts q prev k xs := by
  induction xs generalizing prev k with
  | nil => rfl
  | cons x xs ih =>
    rw [starts_cons, starts_cons, h x List.mem_cons_self,
      ih fun y hy => h y (List.mem_cons_of_mem _ hy)]

lemma starts_concat {x : α} (hx : p x = false) (prev : Bool) (k : Nat) (xs : List α) :
    starts p prev k (xs ++ [x]) = starts p prev k xs := by
  induction xs generalizing prev k with
  | nil => simp [starts, hx]
  | cons y xs ih => rw [List.cons_append, starts_cons, starts_cons, ih]

lemma length_starts_le (prev : Bool) (k : Nat) (xs : List α) :
    (starts p prev k xs).length ≤ xs.length := by
  induction xs generalizing prev k with
  | nil => exact Nat.le_refl _
  | cons x xs ih =>
    have hle := ih (p x) (k + 1)
    rw [starts_cons, List.length_append, List.length_cons]
    split <;> simp only [List.length_singleton, List.length_nil] <;> omega

lemma starts_append_of_const {prev : Bool} (h : ∀ x ∈ xs, p x = prev) (k : Nat) (ys : List α) :
    starts p prev k (xs ++ ys) = starts p prev (k + xs.length) ys := by
  induction xs generalizing k with
  | nil => rfl
  | cons x xs ih =>
    rw [List.cons_append, starts_cons, h x List.mem_cons_self, ih (fun y hy => h y (List.mem_cons_of_mem _ hy)),
      List.length_cons, Nat.add_assoc, Nat.add_comm 1]
    cases prev <;> rfl

lemma starts_of_forall_not (h : ∀ x ∈ xs, p x = false) (k : Nat) : starts p false k xs = [] := by
  have happend := starts_append_of_const p h k []
  rwa [List.append_nil] at happend

lemma starts_run {ds ts : List α} {t : α} (hds : ∀ x ∈ ds, p x = false) (hts : ∀ x ∈ t :: ts, p x = true) (k : Nat)
    (ys : List α) :
    starts p false k (ds ++ (t :: ts ++ ys)) =
      (k + ds.length) :: starts p true (k + ds.length + (t :: ts).length) ys := by
  rw [starts_append_of_const p hds, List.cons_append, starts_cons, hts t List.mem_cons_self,
    starts_append_of_const p (fun x hx => hts x (List.mem_cons_of_mem _ hx)), List.length_cons, Nat.add_assoc _ 1,
    Nat.add_comm 1]
  rfl

lemma exists_span (q : α → Bool) (xs : List α) :
    ∃ ds ys, xs = ds ++ ys ∧ (∀ x ∈ ds, q x = true) ∧ (ys = [] ∨ ∃ y ys', ys = y :: ys' ∧ q y = false) := by
  refine ⟨xs.takeWhile q, xs.dropWhile q, List.takeWhile_append_dropWhile.symm,
    fun x hx => List.mem_takeWhile_imp hx, ?_⟩
  cases hys : xs.dropWhile q with
  | nil => exact .inl rfl
  | cons y ys' =>
    have hhead := List.head?_dropWhile_not q xs
    rw [hys] at hhead
    exact .inr ⟨y, ys', rfl, hhead⟩

lemma runs_cases (xs : List α) :
    (∀ x ∈ xs, p x = false) ∨
      ∃ ds t ts, (∀ x ∈ ds, p x = false) ∧ (∀ x ∈ t :: ts, p x = true) ∧
        (xs = ds ++ t :: ts ∨ ∃ c rest, p c = false ∧ xs = ds ++ (t :: ts ++ c :: rest)) := by
  obtain ⟨ds, ys, rfl, hds, rfl | ⟨t, ys, rfl, ht⟩⟩ := exists_span (fun x => !p x) xs
  · exact .inl (by simpa using hds)
  · obtain ⟨ts, zs, rfl, hts, hzs⟩ := exists_span p ys
    refine .inr ⟨ds, t, ts, by simpa using hds, List.forall_mem_cons.mpr ⟨by simpa using ht, hts⟩, ?_⟩
    rcases hzs with rfl | ⟨c, rest, rfl, hc⟩
    · exact .inl (by rw [List.append_nil])
    · exact .inr ⟨c, rest, hc, rfl⟩

lemma not_of_getElem?_length_takeWhile {x : α} (h : xs[(xs.takeWhile p).length]? = some x) :
    p x = false := by
  induction xs with
  | nil => simp at h
  | cons y xs ih =>
    by_cases hy : p y = true
    · simp only [List.takeWhile_cons, hy, if_true, List.length_cons, List.getElem?_cons_succ] at h
      exact ih h
    · simp only [Bool.not_eq_true] at hy
      have hxy : y = x := by simpa [hy] using h
      rw [← hxy, hy]

end Pintos.Foundation
