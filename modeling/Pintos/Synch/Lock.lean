import Pintos.Synch.Semaphore

/-! Locks, under any interleaving of the half-steps of acquiring and releasing one. -/

namespace Pintos.Synch

open Pintos.Foundation Function

structure Lock (T : Type*) where
  holder : Option T
  semaphore : Semaphore T

inductive Phase
  | out
  | acquiring
  | trying
  | waiting
  | woken
  | got
  | held
  | releasing
  | cleared
  deriving DecidableEq, Repr

def Phase.owns : Phase → Bool
  | .got | .held | .releasing | .cleared => true
  | .out | .acquiring | .trying | .waiting | .woken => false

structure LockUse (T : Type*) where
  lock : Lock T
  phase : T → Phase

inductive LockOp (T : Type*)
  | acquire (t : T)
  | down (t : T)
  | retest (t : T)
  | setHolder (t : T)
  | tryAcquire (t : T)
  | tryDown (t : T)
  | release (t : T)
  | clear (t : T)
  | up (t : T)

variable {T : Type*}

structure LockInv (x : LockUse T) : Prop where
  owner : (x.lock.semaphore.value = 1 ∧ ∀ t, (x.phase t).owns = false) ∨
    (x.lock.semaphore.value = 0 ∧ ∃ o, ∀ t, (x.phase t).owns = true ↔ t = o)
  holder : ∀ t, x.lock.holder = some t ↔ x.phase t = .held ∨ x.phase t = .releasing
  waits : ∀ t ∈ x.lock.semaphore.waiters, x.phase t = .waiting
  nodup : x.lock.semaphore.waiters.Nodup

lemma LockInv.not_waiting {x : LockUse T} {t : T} (h : LockInv x) (ht : x.phase t ≠ .waiting) :
    t ∉ x.lock.semaphore.waiters :=
  fun hw => ht (h.waits t hw)

lemma LockInv.value_eq_zero {x : LockUse T} {t : T} (h : LockInv x)
    (ht : (x.phase t).owns = true) :
    x.lock.semaphore.value = 0 ∧ ∀ u, (x.phase u).owns = true ↔ u = t := by
  rcases h.owner with ⟨-, hno⟩ | ⟨hv, o, ho⟩
  · simp [hno t] at ht
  · obtain rfl := (ho t).mp ht
    exact ⟨hv, ho⟩

lemma LockInv.holder_ne {x : LockUse T} {t : T} (h : LockInv x) (ht : (x.phase t).owns = false) :
    x.lock.holder ≠ some t := by
  intro he
  rcases (h.holder t).mp he with hp | hp
  · simp [hp, Phase.owns] at ht
  · simp [hp, Phase.owns] at ht

@[simps -fullyApplied]
def LockUse.setSema (x : LockUse T) (m : Semaphore T) : LockUse T :=
  { x with lock := { x.lock with semaphore := m } }

@[simps -fullyApplied]
def LockUse.setHolder (x : LockUse T) (o : Option T) : LockUse T :=
  { x with lock := { x.lock with holder := o } }

variable [DecidableEq T]

@[simps -fullyApplied]
def LockUse.setPhase (x : LockUse T) (t : T) (p : Phase) : LockUse T :=
  { x with phase := update x.phase t p }

def LockUse.test (x : LockUse T) (t : T) : LockUse T :=
  let (passed, m) := semaDown x.lock.semaphore t
  (x.setSema m).setPhase t (if passed then .got else .waiting)

def LockUse.wake (x : LockUse T) : Option T → LockUse T
  | none => x
  | some u => x.setPhase u .woken

/-- A step of one thread; the assertions of `lock_acquire`, `lock_try_acquire` and `lock_release` are
checked by `acquire`, `tryAcquire` and `release`. -/
def lockNext (x : LockUse T) : LockOp T → Option (LockUse T)
  | .acquire t =>
    if x.phase t = .out ∧ x.lock.holder ≠ some t then some (x.setPhase t .acquiring) else none
  | .down t => if x.phase t = .acquiring then some (x.test t) else none
  | .retest t => if x.phase t = .woken then some (x.test t) else none
  | .setHolder t =>
    if x.phase t = .got then some ((x.setHolder (some t)).setPhase t .held) else none
  | .tryAcquire t =>
    if x.phase t = .out ∧ x.lock.holder ≠ some t then some (x.setPhase t .trying) else none
  | .tryDown t =>
    if x.phase t = .trying then
      let (success, m) := semaTryDown x.lock.semaphore
      some ((x.setSema m).setPhase t (if success then .got else .out))
    else none
  | .release t =>
    if x.phase t = .held ∧ x.lock.holder = some t then some (x.setPhase t .releasing) else none
  | .clear t =>
    if x.phase t = .releasing then some ((x.setHolder none).setPhase t .cleared) else none
  | .up t =>
    if x.phase t = .cleared then
      let (woken, m) := semaUp x.lock.semaphore
      some (((x.setSema m).setPhase t .out).wake woken)
    else none

def lockInit (T : Type*) : LockUse T := ⟨⟨none, ⟨1, []⟩⟩, fun _ => .out⟩

def lockSystem (T : Type*) [DecidableEq T] : System (LockUse T) (LockOp T) where
  init x := x = lockInit T
  next := lockNext

namespace LockInv

variable {x : LockUse T} {t : T}

lemma move (h : LockInv x) {p : Phase} {o : Option T} (howns : p.owns = (x.phase t).owns)
    (hw : x.phase t ≠ .waiting) (hself : o = some t ↔ p = .held ∨ p = .releasing)
    (hother : ∀ u, u ≠ t → (o = some u ↔ x.lock.holder = some u)) :
    LockInv ((x.setHolder o).setPhase t p) := by
  have hphase : ∀ u, (update x.phase t p u).owns = (x.phase u).owns := by
    intro u
    by_cases hu : u = t
    · simpa [hu] using howns
    · rw [update_of_ne hu]
  refine ⟨?_, fun u => ?_, fun u hu => ?_, h.nodup⟩
  · simpa [hphase] using h.owner
  · by_cases hu : u = t
    · simpa [hu] using hself
    · simpa [hu, hother u hu] using h.holder u
  · have hne : u ≠ t := fun he => h.not_waiting hw (he ▸ hu)
    simpa [hne] using h.waits u hu

section

variable (h : LockInv x) (ht : (x.phase t).owns = false) (hw : x.phase t ≠ .waiting)

include h ht hw

lemma take (hv : x.lock.semaphore.value ≠ 0) :
    LockInv ((x.setSema ⟨x.lock.semaphore.value - 1, x.lock.semaphore.waiters⟩).setPhase t .got) := by
  obtain ⟨hone, hno⟩ : x.lock.semaphore.value = 1 ∧ ∀ u, (x.phase u).owns = false := by
    rcases h.owner with hone | ⟨hz, -⟩
    · exact hone
    · exact (hv hz).elim
  refine ⟨.inr ⟨by simp [hone], t, fun u => ?_⟩, fun u => ?_, fun u hu => ?_, h.nodup⟩
  · by_cases hu : u = t
    · simp [hu, Phase.owns]
    · simp [hu, hno u]
  · by_cases hu : u = t
    · simpa [hu] using h.holder_ne ht
    · simpa [hu] using h.holder u
  · have hne : u ≠ t := fun he => h.not_waiting hw (he ▸ hu)
    simpa [hne] using h.waits u hu

lemma queue : LockInv ((x.setSema ⟨x.lock.semaphore.value, x.lock.semaphore.waiters ++ [t]⟩).setPhase t
      .waiting) := by
  have hphase : ∀ u, (update x.phase t .waiting u).owns = (x.phase u).owns := by
    intro u
    by_cases hu : u = t
    · rw [hu, update_self, ht]
      rfl
    · rw [update_of_ne hu]
  refine ⟨?_, fun u => ?_, fun u hu => ?_, ?_⟩
  · simpa [hphase] using h.owner
  · by_cases hu : u = t
    · simpa [hu] using h.holder_ne ht
    · simpa [hu] using h.holder u
  · by_cases hne : u = t
    · simp [hne]
    · simpa [hne] using h.waits u (by simpa [hne] using hu)
  · simpa using h.nodup.concat (h.not_waiting hw)

lemma test : LockInv (x.test t) := by
  by_cases hv : x.lock.semaphore.value = 0
  · simp only [LockUse.test, semaDown_zero _ _ hv, Bool.false_eq_true, if_false]
    exact h.queue ht hw
  · simp only [LockUse.test, semaDown_pos _ _ hv, if_true]
    exact h.take ht hw hv

end

lemma put (h : LockInv x) (ht : x.phase t = .cleared) {rest : List T} (hnodup : rest.Nodup)
    (hsub : rest ⊆ x.lock.semaphore.waiters) :
    LockInv ((x.setSema ⟨1, rest⟩).setPhase t .out) := by
  obtain ⟨-, hown⟩ := h.value_eq_zero (t := t) (by simp [ht, Phase.owns])
  refine ⟨.inl ⟨rfl, fun u => ?_⟩, fun u => ?_, fun u hu => ?_, hnodup⟩
  · by_cases hu : u = t
    · simp [hu, Phase.owns]
    · simpa [hu] using hown u
  · by_cases hu : u = t
    · simpa [hu, ht] using h.holder t
    · simpa [hu] using h.holder u
  · have hw := h.waits u (hsub hu)
    have hne : u ≠ t := by
      rintro rfl
      simp [ht] at hw
    simpa [hne] using hw

lemma wake (h : LockInv x) {u : T} (hu : x.phase u = .waiting)
    (hw : u ∉ x.lock.semaphore.waiters) : LockInv (x.setPhase u .woken) := by
  have hphase : ∀ v, (update x.phase u .woken v).owns = (x.phase v).owns := by
    intro v
    by_cases hv : v = u
    · rw [hv, update_self, hu]
      rfl
    · rw [update_of_ne hv]
  refine ⟨?_, fun v => ?_, fun v hv => ?_, h.nodup⟩
  · simpa [hphase] using h.owner
  · by_cases hv : v = u
    · simpa [hv, hu] using h.holder u
    · simpa [hv] using h.holder v
  · have hne : v ≠ u := fun he => hw (he ▸ hv)
    simpa [hne] using h.waits v hv

lemma up (h : LockInv x) (ht : x.phase t = .cleared) :
    LockInv (((x.setSema (semaUp x.lock.semaphore).2).setPhase t .out).wake
      (semaUp x.lock.semaphore).1) := by
  have hone : Kernel.wrap (x.lock.semaphore.value + 1) = 1 := by
    rw [(h.value_eq_zero (t := t) (by simp [ht, Phase.owns])).1]
    rfl
  cases hw : x.lock.semaphore.waiters with
  | nil =>
    rw [semaUp_nil _ hw, hone, hw]
    exact h.put ht List.nodup_nil (by simp)
  | cons u rest =>
    have hnodup := h.nodup
    rw [hw, List.nodup_cons] at hnodup
    have hu := h.waits u (by simp [hw])
    have hne : u ≠ t := by
      rintro rfl
      simp [ht] at hu
    rw [semaUp_cons _ _ hw, hone]
    refine (h.put ht hnodup.2 (by simp [hw])).wake ?_ hnodup.1
    simpa [hne] using hu

end LockInv

lemma lockInv_next {x y : LockUse T} (h : LockInv x) (op : LockOp T)
    (hs : lockNext x op = some y) : LockInv y := by
  cases op with
  | acquire t | tryAcquire t | release t =>
    simp only [lockNext, guard_eq_some] at hs
    obtain ⟨⟨hp, hh⟩, rfl⟩ := hs
    exact h.move (o := x.lock.holder) (by simp [hp, Phase.owns]) (by simp [hp]) (by simpa using hh)
      fun _ _ => Iff.rfl
  | down t | retest t =>
    simp only [lockNext, guard_eq_some] at hs
    obtain ⟨hp, rfl⟩ := hs
    exact h.test (by simp [hp, Phase.owns]) (by simp [hp])
  | setHolder t | clear t =>
    simp only [lockNext, guard_eq_some] at hs
    obtain ⟨hp, rfl⟩ := hs
    have hown := h.value_eq_zero (t := t) (by simp [hp, Phase.owns])
    refine h.move (by simp [hp, Phase.owns]) (by simp [hp]) (by simp) fun u hu => ?_
    have hno : x.lock.holder ≠ some u := h.holder_ne (by simpa [hu] using hown.2 u)
    simp [hno, Ne.symm hu]
  | tryDown t =>
    simp only [lockNext, guard_eq_some] at hs
    obtain ⟨hp, rfl⟩ := hs
    have hno : (x.phase t).owns = false := by simp [hp, Phase.owns]
    by_cases hv : 0 < x.lock.semaphore.value
    · simp only [semaTryDown, if_pos hv, if_true]
      exact h.take hno (by simp [hp]) (Nat.ne_of_gt hv)
    · simp only [semaTryDown, if_neg hv, Bool.false_eq_true, if_false]
      exact h.move (o := x.lock.holder) (by simp [hp, Phase.owns]) (by simp [hp])
        (by simpa using h.holder_ne hno) fun _ _ => Iff.rfl
  | up t =>
    simp only [lockNext, guard_eq_some] at hs
    obtain ⟨hp, rfl⟩ := hs
    exact h.up hp

lemma lockInv_reachable {x : LockUse T} (h : (lockSystem T).Reachable x) : LockInv x := by
  refine h.invariant (I := LockInv) ?_ fun _ op _ hi hn => lockInv_next hi op hn
  rintro x rfl
  exact ⟨.inl ⟨rfl, fun _ => rfl⟩, by simp [lockInit], by simp [lockInit], List.nodup_nil⟩

theorem mutual_exclusion {x : LockUse T} (h : (lockSystem T).Reachable x) :
    (∀ t u, (x.phase t).owns = true → (x.phase u).owns = true → t = u) ∧
    (x.lock.semaphore.value = 0 ∨ x.lock.semaphore.value = 1) ∧
    (x.lock.semaphore.value = 1 → x.lock.holder = none) ∧
    (∀ t, x.phase t = .held → x.lock.holder = some t) ∧
    ∀ t, x.phase t = .out → x.lock.holder ≠ some t := by
  have hi := lockInv_reachable h
  refine ⟨fun t u ht hu => ?_, ?_, fun hv => ?_, fun t ht => ?_, fun t ht => ?_⟩
  · exact ((hi.value_eq_zero hu).2 t).mp ht
  · rcases hi.owner with ⟨hv, -⟩ | ⟨hv, -⟩
    · exact .inr hv
    · exact .inl hv
  · rcases hi.owner with ⟨-, hno⟩ | ⟨hz, -⟩
    · cases hh : x.lock.holder with
      | none => rfl
      | some t => exact (hi.holder_ne (hno t) hh).elim
    · omega
  · exact (hi.holder t).mpr (.inl ht)
  · exact hi.holder_ne (by simp [ht, Phase.owns])

theorem mutual_exclusion_after_barging :
    ∃ x, (lockSystem Nat).Reachable x ∧ x.phase 3 = .held ∧ x.phase 2 = .waiting ∧
      x.lock.holder = some 3 ∧ ∀ u, (x.phase u).owns = true → 3 = u := by
  have hrun : (((lockSystem Nat).exec (lockInit Nat) [.acquire 1, .down 1, .acquire 2, .down 2,
      .setHolder 1, .release 1, .clear 1, .up 1, .tryAcquire 3, .tryDown 3, .retest 2,
      .setHolder 3]).map fun x => decide (x.phase 3 = .held ∧ x.phase 2 = .waiting)) =
        some true := by
    decide
  obtain ⟨x, hr, h3, h2⟩ := System.exists_reachable_of_exec rfl hrun
  have h := mutual_exclusion hr
  exact ⟨x, hr, h3, h2, h.2.2.2.1 3 h3, fun u hu => h.1 3 u (by simp [h3, Phase.owns]) hu⟩

end Pintos.Synch
