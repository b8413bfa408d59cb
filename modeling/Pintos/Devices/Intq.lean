import Pintos.Foundation.Bytes
import Pintos.Foundation.Ring
import Pintos.Synch.Lock

/-! Interrupt queues: threads that take bytes, and interrupt handlers that add them. -/

namespace Pintos.Devices

open Pintos.Foundation Pintos.Kernel Pintos.Synch Function

def intqBufsize : Nat := 64

inductive Waiter
  | notFull
  | notEmpty
  deriving DecidableEq, Repr

/-- A queue in use: where each thread is in `lock_acquire`, which threads are blocked in `wait`, the
bytes added and taken so far, and the panic if there was one. -/
structure Queue (T : Type) where
  lock : LockUse T
  notFull : Option T
  notEmpty : Option T
  buf : Nat → Byte
  head : Nat
  tail : Nat
  asleep : T → Bool
  put : List Byte
  got : List (T × Byte)
  failed : Option Panic

variable {T : Type}

def next (pos : Nat) : Nat := (pos + 1) % intqBufsize

namespace Queue

def intqEmpty (x : Queue T) : Bool := x.head = x.tail

def intqFull (x : Queue T) : Bool := next x.head = x.tail

def awaits (x : Queue T) : Waiter → Bool
  | .notFull => x.intqFull
  | .notEmpty => x.intqEmpty

def waiter (x : Queue T) : Waiter → Option T
  | .notFull => x.notFull
  | .notEmpty => x.notEmpty

def setWaiter (x : Queue T) (o : Option T) : Waiter → Queue T
  | .notFull => { x with notFull := o }
  | .notEmpty => { x with notEmpty := o }

def Blocked (x : Queue T) (t : T) : Prop := x.lock.phase t = .waiting ∨ x.asleep t = true

instance (x : Queue T) (t : T) : Decidable (x.Blocked t) := inferInstanceAs (Decidable (_ ∨ _))

end Queue

section Code

variable [DecidableEq T]

def wait (x : Queue T) (t : T) (w : Waiter) : Except Panic (Queue T) := do
  assertThat (x.awaits w) .intqWaitCondition
  return { x.setWaiter (some t) w with asleep := update x.asleep t true }

def signal (x : Queue T) (w : Waiter) : Except Panic (Queue T) := do
  assertThat (¬ x.awaits w) .intqSignalCondition
  match x.waiter w with
  | none => return x
  | some u =>
    assertThat (x.Blocked u) .threadUnblockStatus
    return { x.setWaiter none w with asleep := update x.asleep u false }

/-- What follows a pass through the loop of the lock's `sema_down`. -/
def lockAcquired (x : Queue T) (t : T) : Except Panic (Queue T) :=
  if x.lock.phase t = .got then
    wait { x with lock := (x.lock.setHolder (some t)).setPhase t .held } t .notEmpty
  else .ok x

def lockRelease (x : Queue T) (t : T) : Except Panic (Queue T) := do
  assertThat (x.lock.lock.holder = some t) .lockReleaseHeld
  let (woken, m) := semaUp x.lock.lock.semaphore
  assertThat (∀ u ∈ woken, x.Blocked u) .threadUnblockStatus
  return { x with lock := (((x.lock.setHolder none).setSema m).setPhase t .out).wake woken }

def intqGetc (x : Queue T) (t : T) : Except Panic (Queue T) := do
  if x.intqEmpty then
    assertThat (x.lock.lock.holder ≠ some t) .lockAcquireHeld
    lockAcquired { x with lock := x.lock.test t } t
  else
    let byte := x.buf x.tail
    let y ← signal { x with tail := next x.tail } .notFull
    return { y with got := y.got ++ [(t, byte)] }

def intqPutc (x : Queue T) (byte : Byte) : Except Panic (Queue T) := do
  assertThat (¬ x.intqFull) .intqPutcContext
  let y ← signal { x with buf := update x.buf x.head byte, head := next x.head } .notEmpty
  return { y with put := y.put ++ [byte] }

end Code

inductive QueueOp (T : Type)
  | call (t : T)
  | retest (t : T)
  | resume (t : T)
  | putc (byte : Byte)

/-- The bytes that a step hands to the queue. -/
def QueueOp.handed : QueueOp T → List Byte
  | .putc byte => [byte]
  | .call _ | .retest _ | .resume _ => []

def Queue.commit (x : Queue T) : Except Panic (Queue T) → Queue T
  | .ok y => y
  | .error e => { x with failed := some e }

def Queue.initial (T : Type) (buf : Nat → Byte) : Queue T where
  lock := lockInit T
  notFull := none
  notEmpty := none
  buf := buf
  head := 0
  tail := 0
  asleep _ := false
  put := []
  got := []
  failed := none

section Runs

variable [DecidableEq T]

/-- Interrupts are off in the queue's functions, so a thread runs from one `thread_block` to the
next without a switch. -/
def queueStep (x : Queue T) : QueueOp T → Option (Except Panic (Queue T))
  | .call t => if x.lock.phase t = .out then some (intqGetc x t) else none
  | .retest t =>
    if x.lock.phase t = .woken then some (lockAcquired { x with lock := x.lock.test t } t) else none
  | .resume t =>
    if x.lock.phase t = .held ∧ x.asleep t = false then
      some (lockRelease x t >>= fun y => intqGetc y t)
    else none
  | .putc byte => if x.intqFull then none else some (intqPutc x byte)

def queueNext (x : Queue T) (op : QueueOp T) : Option (Queue T) :=
  if x.failed = none then (queueStep x op).map x.commit else none

def queueSystem (T : Type) [DecidableEq T] : System (Queue T) (QueueOp T) where
  init x := ∃ buf, x = Queue.initial T buf
  next := queueNext

end Runs

lemma Queue.empty_of_full {q : Queue T} (h : q.intqFull = true) : q.intqEmpty = false := by
  have hfull : Devices.next q.head = q.tail := of_decide_eq_true h
  refine decide_eq_false fun he => ?_
  rw [Devices.next, intqBufsize] at hfull
  omega

section Equations

variable [DecidableEq T] {x : Queue T} {w : Waiter}

lemma wait_ok (t : T) (h : x.awaits w = true) :
    wait x t w = .ok { x.setWaiter (some t) w with asleep := update x.asleep t true } := by
  rw [wait, assertThat_pos h, bind_ok]
  rfl

lemma wait_error (t : T) (h : x.awaits w = false) :
    wait x t w = .error (.assertion .intqWaitCondition) := by
  rw [wait, assertThat_neg (by simp [h]), bind_error]

lemma signal_none (h : x.awaits w = false) (hw : x.waiter w = none) : signal x w = .ok x := by
  rw [signal, assertThat_pos (by simp [h]), bind_ok, hw]
  rfl

lemma signal_some {u : T} (h : x.awaits w = false) (hw : x.waiter w = some u) (hu : x.Blocked u) :
    signal x w = .ok { x.setWaiter none w with asleep := update x.asleep u false } := by
  rw [signal, assertThat_pos (by simp [h]), bind_ok, hw]
  simp only [assertThat_pos hu, bind_ok]
  rfl

end Equations

structure Orderly (x : Queue T) : Prop where
  lock : LockInv x.lock
  stages : ∀ t, x.lock.phase t = .out ∨ x.lock.phase t = .waiting ∨ x.lock.phase t = .woken ∨
    x.lock.phase t = .held
  sleeper : ∀ t, x.notEmpty = some t ↔ x.asleep t = true
  held : ∀ t, x.asleep t = true → x.lock.phase t = .held
  empty : ∀ t, x.notEmpty = some t → x.head = x.tail
  noProducer : x.notFull = none
  fifo : ∃ xs, Ring intqBufsize x.buf x.head x.tail xs ∧ x.put = x.got.map Prod.snd ++ xs

namespace Orderly

variable {x : Queue T}

lemma initial (buf : Nat → Byte) : Orderly (Queue.initial T buf) where
  lock := ⟨.inl ⟨rfl, fun _ => rfl⟩, by simp [Queue.initial, lockInit],
    by simp [Queue.initial, lockInit], List.nodup_nil⟩
  stages _ := .inl rfl
  sleeper t := by simp [Queue.initial]
  held t ht := by simp [Queue.initial] at ht
  empty t ht := by simp [Queue.initial] at ht
  noProducer := rfl
  fifo := ⟨[], Ring.nil (Nat.zero_lt_succ 63) buf, rfl⟩

variable (h : Orderly x)

include h

lemma none_asleep {t : T} (howner : ∀ u, (x.lock.phase u).owns = true → u = t)
    (ht : x.asleep t = false) (u : T) : x.asleep u = false := by
  by_contra hne
  have hu : x.asleep u = true := by simpa using hne
  have heq := howner u (by simp [h.held u hu, Phase.owns])
  rw [heq, ht] at hu
  exact Bool.false_ne_true hu

lemma asleep_of_phase_ne {t : T} (ht : x.lock.phase t ≠ .held) : x.asleep t = false := by
  by_contra hne
  exact ht (h.held t (by simpa using hne))

lemma with_lock {l : LockUse T} (hl : LockInv l)
    (hstages : ∀ t, l.phase t = .out ∨ l.phase t = .waiting ∨ l.phase t = .woken ∨
      l.phase t = .held) (hheld : ∀ t, x.asleep t = true → l.phase t = .held) : Orderly { x with lock := l } :=
  ⟨hl, hstages, h.sleeper, hheld, h.empty, h.noProducer, h.fifo⟩

variable [DecidableEq T] {t : T}

lemma lock_test (ht : x.lock.phase t = .out ∨ x.lock.phase t = .woken) :
    LockInv (x.lock.test t) ∧ x.asleep t = false := by
  refine ⟨h.lock.test ?_ ?_, h.asleep_of_phase_ne ?_⟩ <;> rcases ht with hp | hp <;> simp [hp, Phase.owns]

lemma lockAcquired_queues (ht : x.lock.phase t = .out ∨ x.lock.phase t = .woken)
    (hv : x.lock.lock.semaphore.value = 0) :
    ∃ y, lockAcquired { x with lock := x.lock.test t } t = .ok y ∧ Orderly y ∧
      y.failed = x.failed ∧ y.put = x.put := by
  obtain ⟨hlock, ht⟩ := h.lock_test ht
  have hphase : (x.lock.test t).phase = update x.lock.phase t .waiting := by
    simp [LockUse.test, semaDown_zero _ _ hv]
  refine ⟨{ x with lock := x.lock.test t }, if_neg ?_, h.with_lock hlock ?_ ?_, rfl, rfl⟩
  · simp [hphase]
  · intro u
    by_cases hu : u = t
    · simp [hphase, hu]
    · simpa [hphase, hu] using h.stages u
  · intro u hu
    have hne : u ≠ t := fun he => Bool.false_ne_true (ht.symm.trans (he ▸ hu))
    simpa [hphase, hne] using h.held u hu

lemma lockAcquired_takes (ht : x.lock.phase t = .out ∨ x.lock.phase t = .woken)
    (hv : x.lock.lock.semaphore.value ≠ 0) :
    (x.intqEmpty = true → ∃ y, lockAcquired { x with lock := x.lock.test t } t = .ok y ∧ Orderly y ∧
      y.failed = x.failed ∧ y.put = x.put) ∧ (x.intqEmpty = false →
      lockAcquired { x with lock := x.lock.test t } t = .error (.assertion .intqWaitCondition)) := by
  obtain ⟨hlock, ht⟩ := h.lock_test ht
  have hphase : (x.lock.test t).phase = update x.lock.phase t .got := by
    simp [LockUse.test, semaDown_pos _ _ hv]
  have hgot : (x.lock.test t).phase t = .got := by simp [hphase]
  have hfree : ∀ u, (x.lock.phase u).owns = false := by
    rcases h.lock.owner with ⟨-, hfree⟩ | ⟨hz, -⟩
    · exact hfree
    · exact (hv hz).elim
  have hawake : ∀ u, x.asleep u = false :=
    h.none_asleep (fun u hu => (Bool.false_ne_true ((hfree u).symm.trans hu)).elim) ht
  have hrun : lockAcquired { x with lock := x.lock.test t } t = wait
      { x with lock := ((x.lock.test t).setHolder (some t)).setPhase t .held } t .notEmpty :=
    if_pos hgot
  rw [hrun]
  refine ⟨fun hempty => ⟨_, wait_ok (w := .notEmpty) t hempty, ?_, rfl, rfl⟩,
    fun hsome => wait_error (w := .notEmpty) t hsome⟩
  · refine ⟨?_, fun u => ?_, fun u => ?_, fun u hu => ?_, fun _ _ => of_decide_eq_true hempty,
      h.noProducer, h.fifo⟩
    · exact lockInv_next hlock (.setHolder t) (if_pos hgot)
    · by_cases hu : u = t
      · simp [Queue.setWaiter, hu]
      · simpa [Queue.setWaiter, hphase, hu] using h.stages u
    · by_cases hu : u = t
      · simp [Queue.setWaiter, hu]
      · simp [Queue.setWaiter, hu, hawake u, Ne.symm hu]
    · by_cases hne : u = t
      · simp [Queue.setWaiter, hne]
      · simp [hne, hawake u] at hu

lemma intqGetc_takes (t : T) (hsome : x.intqEmpty = false) :
    ∃ y, intqGetc x t = .ok y ∧ Orderly y ∧ y.failed = x.failed ∧
      y.put = x.put ∧ ∃ byte, y.got = x.got ++ [(t, byte)] := by
  obtain ⟨xs, hring, hput⟩ := h.fifo
  cases xs with
  | nil => simp [Queue.intqEmpty, hring.head_eq_tail_iff.mpr rfl] at hsome
  | cons b xs =>
    obtain ⟨hb, hpop⟩ := hring.pop
    have hroom := hring.room
    have hfull : ¬ next x.head = next x.tail := by
      intro he
      have hlen := hpop.full_iff.mp he
      rw [List.length_cons] at hroom
      omega
    have hrun : signal { x with tail := next x.tail } .notFull =
        .ok { x with tail := next x.tail } :=
      signal_none (decide_eq_false hfull) h.noProducer
    refine ⟨{ x with tail := next x.tail, got := x.got ++ [(t, b)] }, ?_, ?_, rfl, rfl, b, rfl⟩
    · simp only [intqGetc, hsome, Bool.false_eq_true, if_false, hrun, bind_ok, hb, pure_eq_ok]
    · refine ⟨h.lock, h.stages, h.sleeper, h.held, fun u hu => ?_, h.noProducer, xs, hpop, ?_⟩
      · simp [Queue.intqEmpty, h.empty u hu] at hsome
      · simp [hput]

lemma lockRelease_ok (ht : x.lock.phase t = .held) (hawake : x.asleep t = false) :
    ∃ l, lockRelease x t = .ok { x with lock := l } ∧ Orderly { x with lock := l } ∧
      l.phase t = .out := by
  obtain ⟨hz, hown⟩ := h.lock.value_eq_zero (t := t) (by simp [ht, Phase.owns])
  have hno := h.none_asleep (fun u => (hown u).mp) hawake
  have hcleared : LockInv ((x.lock.setHolder none).setPhase t .cleared) := by
    refine h.lock.move (by simp [ht, Phase.owns]) (by simp [ht]) (by simp) fun u hu => ?_
    have hne := h.lock.holder_ne (t := u) (by simpa [hu] using hown u)
    simp [hne]
  have hup := hcleared.up (t := t) (by simp)
  have hidem : ∀ m : Semaphore T, (((x.lock.setHolder none).setPhase t .cleared).setSema m).setPhase
      t .out = ((x.lock.setHolder none).setSema m).setPhase t .out := by
    intro m
    simp only [LockUse.setPhase, LockUse.setSema, update_idem]
  simp only [hidem, LockUse.setPhase_lock, LockUse.setHolder_lock_semaphore] at hup
  have hwaits : ∀ u ∈ (semaUp x.lock.lock.semaphore).1, x.lock.phase u = .waiting := by
    intro u hu
    apply h.lock.waits u
    cases hws : x.lock.lock.semaphore.waiters with
    | nil => simp [semaUp, hws] at hu
    | cons v rest =>
      simp only [semaUp, hws, Option.mem_def, Option.some.injEq] at hu
      simp [hu]
  have hblocked : ∀ u ∈ (semaUp x.lock.lock.semaphore).1, x.Blocked u :=
    fun u hu => .inl (hwaits u hu)
  refine ⟨_, ?_, h.with_lock hup ?_ ?_, ?_⟩
  · rw [lockRelease, assertThat_pos ((h.lock.holder t).mpr (.inl ht)), bind_ok]
    simp only [assertThat_pos hblocked, bind_ok, pure_eq_ok]
  · intro u
    cases (semaUp x.lock.lock.semaphore).1 with
    | none =>
      by_cases hu : u = t
      · simp [LockUse.wake, hu]
      · simpa [LockUse.wake, hu] using h.stages u
    | some v =>
      by_cases hv : u = v
      · simp [LockUse.wake, hv]
      · by_cases hu : u = t
        · subst hu
          simp [LockUse.wake, hv]
        · simpa [LockUse.wake, hu, hv] using h.stages u
  · intro u hu
    simp [hno u] at hu
  · cases hup' : (semaUp x.lock.lock.semaphore).1 with
    | none => simp [LockUse.wake]
    | some v =>
      have hne : t ≠ v := by
        rintro rfl
        have hw := hwaits t hup'
        simp [ht] at hw
      simp [LockUse.wake, hne]

lemma intqPutc_ok (b : Byte) (hfull : x.intqFull = false) :
    ∃ y, intqPutc x b = .ok y ∧ Orderly y ∧ y.failed = x.failed ∧ y.put = x.put ++ [b] ∧ y.got = x.got := by
  obtain ⟨xs, hring, hput⟩ := h.fifo
  have hpush := hring.push (of_decide_eq_false hfull) b
  have hsome : ¬ next x.head = x.tail := of_decide_eq_false hfull
  have hbytes : x.put ++ [b] = x.got.map Prod.snd ++ (xs ++ [b]) := by
    rw [hput, List.append_assoc]
  have hempty : Queue.awaits { x with buf := update x.buf x.head b, head := next x.head } .notEmpty =
      false := decide_eq_false hsome
  rw [intqPutc, assertThat_pos (by simp [hfull]), bind_ok]
  rcases Option.eq_none_or_eq_some x.notEmpty with hw | ⟨u, hw⟩
  · rw [signal_none hempty hw, bind_ok]
    refine ⟨_, rfl, ⟨h.lock, h.stages, h.sleeper, h.held, fun u hu => ?_, h.noProducer,
      xs ++ [b], hpush, hbytes⟩, rfl, rfl, rfl⟩
    simp [hw] at hu
  · have hu := (h.sleeper u).mp hw
    rw [signal_some hempty hw (.inr hu), bind_ok]
    refine ⟨_, rfl, ⟨h.lock, h.stages, fun v => ?_, fun v hv => ?_, fun v hv => ?_, h.noProducer,
      xs ++ [b], hpush, hbytes⟩, rfl, rfl, rfl⟩
    · by_cases hvu : v = u
      · simp [Queue.setWaiter, hvu]
      · have hv := (h.sleeper v).not.mp (by simpa [hw] using Ne.symm hvu)
        simpa [Queue.setWaiter, hvu] using hv
    · by_cases hvu : v = u
      · simp [hvu] at hv
      · exact h.held v (by simpa [hvu] using hv)
    · simp [Queue.setWaiter] at hv

end Orderly

section Results

variable [DecidableEq T]

def RetestsEmpty (x : Queue T) : QueueOp T → Prop
  | .retest _ => x.lock.lock.semaphore.value = 0 ∨ x.intqEmpty = true
  | .call _ | .resume _ | .putc _ => True

instance (x : Queue T) : (op : QueueOp T) → Decidable (RetestsEmpty x op)
  | .retest _ => inferInstanceAs (Decidable (_ ∨ _))
  | .call _ | .resume _ | .putc _ => inferInstanceAs (Decidable True)

variable {x : Queue T}

lemma Orderly.getc (h : Orderly x) {t : T} (ht : x.lock.phase t = .out) :
    ∃ y, intqGetc x t = .ok y ∧ Orderly y ∧ y.failed = x.failed ∧ y.put = x.put := by
  cases hempty : x.intqEmpty with
  | false =>
    obtain ⟨y, hy, ho, hf, hput, -⟩ := h.intqGetc_takes t hempty
    exact ⟨y, hy, ho, hf, hput⟩
  | true =>
    have hne := h.lock.holder_ne (t := t) (by simp [ht, Phase.owns])
    simp only [intqGetc, hempty, if_true, assertThat_pos hne, bind_ok]
    by_cases hv : x.lock.lock.semaphore.value = 0
    · exact h.lockAcquired_queues (.inl ht) hv
    · exact (h.lockAcquired_takes (.inl ht) hv).1 hempty

lemma queueStep_cases {op : QueueOp T} {r : Except Panic (Queue T)} (h : Orderly x)
    (hr : queueStep x op = some r) :
    (RetestsEmpty x op ∧ ∃ y, r = .ok y ∧ Orderly y ∧ y.failed = x.failed ∧ y.put = x.put ++ op.handed) ∨
      (¬ RetestsEmpty x op ∧ op.handed = [] ∧ r = .error (.assertion .intqWaitCondition)) := by
  have hsame : ∀ {z : Except Panic (Queue T)}, (∃ y, z = .ok y ∧ Orderly y ∧ y.failed = x.failed ∧ y.put = x.put) →
      ∃ y, z = .ok y ∧ Orderly y ∧ y.failed = x.failed ∧ y.put = x.put ++ [] := by
    simp only [List.append_nil, imp_self, implies_true]
  cases op with
  | call t =>
    simp only [queueStep, guard_eq_some] at hr
    obtain ⟨ht, rfl⟩ := hr
    exact .inl ⟨trivial, hsame (h.getc ht)⟩
  | retest t =>
    simp only [queueStep, guard_eq_some] at hr
    obtain ⟨ht, rfl⟩ := hr
    by_cases hv : x.lock.lock.semaphore.value = 0
    · exact .inl ⟨.inl hv, hsame (h.lockAcquired_queues (.inr ht) hv)⟩
    · obtain ⟨htake, hfail⟩ := h.lockAcquired_takes (.inr ht) hv
      cases hempty : x.intqEmpty with
      | true => exact .inl ⟨.inr hempty, hsame (htake hempty)⟩
      | false =>
        refine .inr ⟨?_, rfl, hfail hempty⟩
        simp [RetestsEmpty, hv, hempty]
  | resume t =>
    simp only [queueStep, guard_eq_some] at hr
    obtain ⟨⟨ht, hawake⟩, rfl⟩ := hr
    obtain ⟨l, hl, ho, hout⟩ := h.lockRelease_ok ht hawake
    rw [hl, bind_ok]
    exact .inl ⟨trivial, hsame (ho.getc hout)⟩
  | putc b =>
    simp only [queueStep, Option.ite_none_left_eq_some, Bool.not_eq_true, Option.some.injEq] at hr
    obtain ⟨hfull, rfl⟩ := hr
    obtain ⟨y, hy, ho, hf, hput, -⟩ := h.intqPutc_ok b hfull
    exact .inl ⟨trivial, y, hy, ho, hf, hput⟩

lemma queueNext_cases {y : Queue T} {op : QueueOp T} (h : Orderly x)
    (hs : (queueSystem T).next x op = some y) :
    y.put = x.put ++ op.handed ∧ ((RetestsEmpty x op ∧ Orderly y ∧ y.failed = none) ∨
      (¬ RetestsEmpty x op ∧ y.failed = some (.assertion .intqWaitCondition))) := by
  simp only [queueSystem, queueNext, Option.ite_none_right_eq_some, Option.map_eq_some_iff] at hs
  obtain ⟨hf, r, hr, rfl⟩ := hs
  rcases queueStep_cases h hr with ⟨hc, z, rfl, ho, hz, hput⟩ | ⟨hc, hnone, rfl⟩
  · exact ⟨hput, .inl ⟨hc, ho, hz.trans hf⟩⟩
  · exact ⟨by rw [hnone, List.append_nil]; rfl, .inr ⟨hc, rfl⟩⟩

lemma reachable_orderly (h : (queueSystem T).ReachableWhere RetestsEmpty x) :
    Orderly x ∧ x.failed = none := by
  refine h.invariant (I := fun x => Orderly x ∧ x.failed = none) ?_ ?_
  · rintro x ⟨buf, rfl⟩
    exact ⟨.initial buf, rfl⟩
  · intro x op y hi hc hs
    rcases (queueNext_cases hi.1 hs).2 with ⟨-, hy⟩ | ⟨hn, -⟩
    · exact hy
    · exact (hn hc).elim

end Results

def Queue.contents {T : Type} (q : Queue T) : List Byte :=
  (List.range ((q.head + intqBufsize - q.tail) % intqBufsize)).map fun i => q.buf ((q.tail + i) % intqBufsize)

lemma contents_of_ring {T : Type} {q : Queue T} {xs : List Byte} (h : Ring intqBufsize q.buf q.head q.tail xs) :
    q.contents = xs := by
  have hlen : (q.head + intqBufsize - q.tail) % intqBufsize = xs.length := by
    have htail := h.tail_lt
    have hroom := h.room
    rw [h.head_eq, intqBufsize] at *
    omega
  apply List.ext_getElem
  · rw [Queue.contents, List.length_map, List.length_range, hlen]
  · intro i hi hi'
    simp only [Queue.contents, List.getElem_map, List.getElem_range]
    exact h.cells i hi'

/-- A call that has nothing to wait for. -/
def Prompt {T : Type} (x : Queue T) : QueueOp T → Prop
  | .call _ => x.intqEmpty = false
  | .putc _ => x.intqFull = false
  | .retest _ | .resume _ => False

instance {T : Type} (x : Queue T) : (op : QueueOp T) → Decidable (Prompt x op)
  | .call _ | .putc _ => inferInstanceAs (Decidable (_ = false))
  | .retest _ | .resume _ => inferInstanceAs (Decidable False)

lemma Prompt.retestsEmpty {T : Type} {x : Queue T} {op : QueueOp T} (h : Prompt x op) : RetestsEmpty x op := by
  cases op with
  | retest t => exact h.elim
  | call t | resume t | putc byte => trivial

theorem prompt_calls_fifo {T : Type} [DecidableEq T] {x : Queue T}
    (h : (queueSystem T).ReachableWhere Prompt x) :
    x.failed = none ∧ x.put = x.got.map Prod.snd ++ x.contents ∧ x.contents.length ≤ intqBufsize - 1 ∧
      (x.intqEmpty = true ↔ x.contents.length = 0) ∧
      (x.intqFull = true ↔ x.contents.length = intqBufsize - 1) ∧
      (∀ byte, x.intqFull = false → ∃ y, intqPutc x byte = .ok y ∧ y.put = x.put ++ [byte] ∧ y.got = x.got) ∧
      ∀ t, x.intqEmpty = false →
        ∃ y byte, intqGetc x t = .ok y ∧ y.put = x.put ∧ y.got = x.got ++ [(t, byte)] := by
  obtain ⟨ho, hf⟩ := reachable_orderly (h.mono fun _ _ => Prompt.retestsEmpty)
  obtain ⟨xs, hring, hput⟩ := ho.fifo
  have hroom := hring.room
  rw [contents_of_ring hring]
  refine ⟨hf, hput, Nat.le_sub_one_of_lt hroom, ?_, ?_, fun byte hfull => ?_, fun t hsome => ?_⟩
  · rw [List.length_eq_zero_iff, ← hring.head_eq_tail_iff]
    exact decide_eq_true_iff
  · have hfull : x.intqFull = true ↔ xs.length + 1 = intqBufsize := decide_eq_true_iff.trans hring.full_iff
    rw [hfull, intqBufsize]
    omega
  · obtain ⟨y, hy, -, -, hput, hgot⟩ := ho.intqPutc_ok byte hfull
    exact ⟨y, hy, hput, hgot⟩
  · obtain ⟨y, hy, -, -, hput, byte, hgot⟩ := ho.intqGetc_takes t hsome
    exact ⟨y, byte, hy, hput, hgot⟩

theorem prompt_calls_fifo_wrapped :
    ∃ x : Queue Nat, (queueSystem Nat).ReachableWhere Prompt x ∧ x.got = [(1, 0)] ∧ x.head = 0 ∧
      x.intqFull = true ∧ x.contents.length = 63 := by
  have hrun : (((queueSystem Nat).restrict fun x op => decide (Prompt x op)).exec
      (Queue.initial Nat fun _ => 0) (((List.range 63).map fun k => .putc (BitVec.ofNat 8 k)) ++
        [.call 1, .putc 63])).map (fun x => (x.got, x.head, x.intqFull)) = some ([(1, 0)], 0, true) := by
    decide +kernel
  obtain ⟨x, hx, hend⟩ := Option.map_eq_some_iff.mp hrun
  simp only [Prod.mk.injEq] at hend
  have hinit : (queueSystem Nat).init (Queue.initial Nat fun _ => 0) := ⟨_, rfl⟩
  have hr := System.reachableWhere_of_exec (C := Prompt) hinit hx fun _ _ => of_decide_eq_true
  exact ⟨x, hr, hend.1, hend.2.1, hend.2.2, (prompt_calls_fifo hr).2.2.2.2.1.mp hend.2.2⟩

end Pintos.Devices
