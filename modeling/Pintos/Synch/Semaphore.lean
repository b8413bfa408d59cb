import Mathlib.Data.List.Nodup
import Pintos.Foundation.Runs
import Pintos.Kernel.Machine

/-! Semaphores, and any interleaving of the operations on one of them. -/

namespace Pintos.Synch

open Pintos.Foundation Pintos.Kernel

variable {T : Type*}

structure Semaphore (T : Type*) where
  value : Nat
  waiters : List T
  deriving DecidableEq, Repr

/-- One pass of thread `t` through the loop of `sema_down`: it takes the value, or it queues. -/
def semaDown (s : Semaphore T) (t : T) : Bool × Semaphore T :=
  if s.value = 0 then (false, { s with waiters := s.waiters ++ [t] })
  else (true, { s with value := s.value - 1 })

def semaTryDown (s : Semaphore T) : Bool × Semaphore T :=
  if 0 < s.value then (true, { s with value := s.value - 1 }) else (false, s)

def semaUp (s : Semaphore T) : Option T × Semaphore T :=
  match s.waiters with
  | [] => (none, { s with value := wrap (s.value + 1) })
  | t :: rest => (some t, ⟨wrap (s.value + 1), rest⟩)

section Equations

variable (s : Semaphore T) (t : T)

lemma semaDown_zero (h : s.value = 0) :
    semaDown s t = (false, { s with waiters := s.waiters ++ [t] }) :=
  if_pos h

lemma semaDown_pos (h : s.value ≠ 0) : semaDown s t = (true, { s with value := s.value - 1 }) :=
  if_neg h

lemma semaUp_nil (h : s.waiters = []) :
    semaUp s = (none, { s with value := wrap (s.value + 1) }) := by
  simp only [semaUp, h]

lemma semaUp_cons {rest : List T} (h : s.waiters = t :: rest) :
    semaUp s = (some t, ⟨wrap (s.value + 1), rest⟩) := by
  simp only [semaUp, h]

end Equations

/-- A semaphore in use: the threads that were unblocked and have not tested the value again, and how
many operations have completed. -/
structure Use (T : Type*) where
  sema : Semaphore T
  woken : List T
  ups : Nat
  downs : Nat
  deriving DecidableEq, Repr

inductive Op (T : Type*)
  | down (t : T)
  | retest (t : T)
  | tryDown
  | up

def Use.test (x : Use T) (t : T) : Use T :=
  { x with
    sema := (semaDown x.sema t).2
    downs := if (semaDown x.sema t).1 then x.downs + 1 else x.downs }

structure Balanced (v : Nat) (x : Use T) : Prop where
  count : x.sema.value + x.downs = v + x.ups
  wakeup : x.sema.waiters ≠ [] → x.sema.value ≤ x.woken.length
  nodup : (x.sema.waiters ++ x.woken).Nodup

variable {v : Nat} {x : Use T}

lemma balanced_test {t : T} (hcount : x.sema.value + x.downs = v + x.ups)
    (hwake : x.sema.waiters ≠ [] → x.sema.value ≤ x.woken.length + 1)
    (hnodup : (x.sema.waiters ++ x.woken).Nodup) (ht : t ∉ x.sema.waiters ++ x.woken) :
    Balanced v (x.test t) := by
  by_cases hz : x.sema.value = 0
  · simp only [Use.test, semaDown_zero _ _ hz]
    refine ⟨hcount, fun _ => Nat.le_trans (Nat.le_of_eq hz) (Nat.zero_le _), ?_⟩
    rw [List.append_assoc, List.singleton_append, List.nodup_middle]
    exact List.nodup_cons.mpr ⟨ht, hnodup⟩
  · simp only [Use.test, semaDown_pos _ _ hz]
    refine ⟨?_, fun hne => ?_, hnodup⟩
    · simp only [if_true]
      omega
    · have hle := hwake hne
      simp only
      omega

variable [DecidableEq T]

def useNext (x : Use T) : Op T → Option (Use T)
  | .down t => if t ∈ x.sema.waiters ∨ t ∈ x.woken then none else some (x.test t)
  | .retest t =>
    if t ∈ x.woken then some (Use.test { x with woken := x.woken.erase t } t) else none
  | .tryDown => some { x with
      sema := (semaTryDown x.sema).2
      downs := if (semaTryDown x.sema).1 then x.downs + 1 else x.downs }
  | .up => some { x with
      sema := (semaUp x.sema).2
      woken := (semaUp x.sema).1.toList ++ x.woken
      ups := x.ups + 1 }

def useSystem (T : Type*) [DecidableEq T] (v : Nat) : System (Use T) (Op T) where
  init x := x = ⟨⟨v, []⟩, [], 0, 0⟩
  next := useNext

lemma balanced_next {y : Use T} (hb : Balanced v x) (op : Op T)
    (h : useNext x op = some y) (hy : y.ups < 4294967296 - v) : Balanced v y := by
  obtain ⟨hcount, hwake, hnodup⟩ := hb
  cases op with
  | down t =>
    simp only [useNext, Option.ite_none_left_eq_some, not_or, Option.some.injEq] at h
    obtain ⟨⟨hw, hk⟩, rfl⟩ := h
    refine balanced_test hcount (fun hne => Nat.le_succ_of_le (hwake hne)) hnodup ?_
    exact List.mem_append.not.mpr (not_or.mpr ⟨hw, hk⟩)
  | retest t =>
    simp only [useNext, guard_eq_some] at h
    obtain ⟨hk, rfl⟩ := h
    have hlen := List.length_erase_add_one hk
    obtain ⟨hnw, hnk, hdisj⟩ := List.nodup_append.mp hnodup
    refine balanced_test hcount (fun hne => hlen ▸ hwake hne) ?_ ?_
    · exact hnodup.sublist (List.erase_sublist.append_left _)
    · rw [List.mem_append, not_or]
      exact ⟨fun hw => hdisj t hw t hk rfl, hnk.not_mem_erase⟩
  | tryDown =>
    simp only [useNext, Option.some.injEq] at h
    subst h
    by_cases hz : 0 < x.sema.value
    · simp only [semaTryDown, if_pos hz]
      refine ⟨by simp only [if_true]; omega, fun hne => ?_, hnodup⟩
      have hle := hwake hne
      simp only
      omega
    · simp only [semaTryDown, if_neg hz]
      exact ⟨hcount, hwake, hnodup⟩
  | up =>
    simp only [useNext, Option.some.injEq] at h
    subst h
    simp only at hy
    -- the value has not reached 2^32, because it is at most `v` plus the number of ups
    have hw : wrap (x.sema.value + 1) = x.sema.value + 1 := wrap_of_lt (by omega)
    cases hws : x.sema.waiters with
    | nil =>
      rw [semaUp_nil _ hws]
      refine ⟨by simp only [hw]; omega, fun hne => (hne hws).elim, ?_⟩
      simpa using hnodup
    | cons t rest =>
      rw [semaUp_cons _ _ hws]
      refine ⟨by simp only [hw]; omega, fun _ => ?_, ?_⟩
      · have hle := hwake (by simp [hws])
        simp only [hw, Option.toList_some, List.singleton_append, List.length_cons]
        omega
      · rw [hws, List.cons_append] at hnodup
        simpa only [Option.toList_some, List.singleton_append, List.nodup_middle] using hnodup

lemma ups_mono {y : Use T} (op : Op T) (h : useNext x op = some y) : x.ups ≤ y.ups := by
  cases op with
  | down t =>
    simp only [useNext, Option.ite_none_left_eq_some, Option.some.injEq] at h
    obtain ⟨-, rfl⟩ := h
    exact Nat.le_refl _
  | retest t =>
    simp only [useNext, guard_eq_some] at h
    obtain ⟨-, rfl⟩ := h
    exact Nat.le_refl _
  | tryDown =>
    simp only [useNext, Option.some.injEq] at h
    exact h ▸ Nat.le_refl _
  | up =>
    simp only [useNext, Option.some.injEq] at h
    exact h ▸ Nat.le_succ _

lemma balanced_reachable (h : (useSystem T v).Reachable x)
    (hups : x.ups < 4294967296 - v) : Balanced v x := by
  revert hups
  refine h.invariant (I := fun x => x.ups < 4294967296 - v → Balanced v x) ?_ ?_
  · rintro x rfl -
    exact ⟨rfl, fun h => (h rfl).elim, List.nodup_nil⟩
  · intro x op y ih hn hy
    exact balanced_next (ih (Nat.lt_of_le_of_lt (ups_mono op hn) hy)) op hn hy

theorem semaphore_accounts {v : Nat} {x : Use T} (h : (useSystem T v).Reachable x)
    (hups : x.ups < 4294967296 - v) :
    x.sema.value + x.downs = v + x.ups ∧
      (x.sema.waiters ≠ [] → x.sema.value ≤ x.woken.length) ∧ x.woken.Nodup := by
  have hb := balanced_reachable h hups
  exact ⟨hb.count, hb.wakeup, (List.nodup_append.mp hb.nodup).2.1⟩

theorem semaphore_accounts_after_barging :
    ∃ x : Use Nat, (useSystem Nat 0).Reachable x ∧ x = ⟨⟨1, [3]⟩, [2, 1], 2, 1⟩ ∧
      x.sema.value + x.downs = 0 + x.ups ∧
      (x.sema.waiters ≠ [] → x.sema.value ≤ x.woken.length) ∧ x.woken.Nodup := by
  have hrun : (useSystem Nat 0).exec ⟨⟨0, []⟩, [], 0, 0⟩
      [.down 1, .down 2, .down 3, .up, .up, .tryDown] = some ⟨⟨1, [3]⟩, [2, 1], 2, 1⟩ := by decide
  have hr := System.exec_reachable (.init rfl) hrun
  exact ⟨_, hr, rfl, semaphore_accounts hr (by decide)⟩

end Pintos.Synch
