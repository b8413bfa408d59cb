import Pintos.Devices.Intq

/-! The transmit queue of the serial port in queued mode. -/

namespace Pintos.Devices

open Pintos.Foundation Pintos.Kernel Pintos.Synch Function

/-- The port in use: its transmit queue, the bytes that threads asleep in `intq_putc` wait to add, the bytes
written to the transmit register, the interrupt enable register, and the panic if there was one. -/
structure Serial (T : Type) where
  txq : Queue T
  byte : T → Byte
  sent : List Byte
  ier : Nat
  failed : Option Panic

def ierRecv : Nat := 1

def ierXmit : Nat := 2

section Code

variable {T : Type} [DecidableEq T]

/-- What `intq_getc` does once the queue is not empty. -/
def intqTake (q : Queue T) : Except Panic (Byte × Queue T) := do
  let byte := q.buf q.tail
  let q ← signal { q with tail := next q.tail } .notFull
  return (byte, q)

/-- What follows a pass through the loop of the lock's `sema_down` in `intq_putc`. -/
def putAcquired (q : Queue T) (t : T) : Except Panic (Queue T) :=
  if q.lock.phase t = .got then
    wait { q with lock := (q.lock.setHolder (some t)).setPhase t .held } t .notFull
  else .ok q

def writeIer (x : Serial T) (inputFull : Bool) : Serial T :=
  let ier := if x.txq.intqEmpty then 0 else ierXmit
  { x with ier := if inputFull then ier else ier ||| ierRecv }

def putcPoll (x : Serial T) (byte : Byte) : Serial T := { x with sent := x.sent ++ [byte] }

def sendOldest (x : Serial T) : Except Panic (Serial T) := do
  let (byte, q) ← intqTake x.txq
  return putcPoll { x with txq := q } byte

/-- `serial_putc` from the test in the loop of `intq_putc` on. -/
def enqueue (x : Serial T) (t : T) (byte : Byte) (inputFull : Bool) : Except Panic (Serial T) := do
  if x.txq.intqFull then
    assertThat (x.txq.lock.lock.holder ≠ some t) .lockAcquireHeld
    let q ← putAcquired { x.txq with lock := x.txq.lock.test t } t
    return { x with txq := q, byte := update x.byte t byte }
  else
    let q ← intqPutc x.txq byte
    return writeIer { x with txq := q } inputFull

def serialPutc (x : Serial T) (t : T) (off : Bool) (byte : Byte) (inputFull : Bool) : Except Panic (Serial T) := do
  if off ∧ x.txq.intqFull then
    let x ← sendOldest x
    enqueue x t byte inputFull
  else enqueue x t byte inputFull

/-- The loop that transmits, for as many times as the port is ready. -/
def transmit (x : Serial T) : Nat → Except Panic (Serial T)
  | 0 => .ok x
  | ready + 1 => if x.txq.intqEmpty then .ok x else sendOldest x >>= fun y => transmit y ready

def serialInterrupt (x : Serial T) (ready : Nat) (inputFull : Bool) : Except Panic (Serial T) := do
  let x ← transmit x ready
  return writeIer x inputFull

/-- The queue never holds as many bytes as its buffer, so this is as often as its loop can turn. -/
def serialFlush (x : Serial T) : Except Panic (Serial T) := transmit x intqBufsize

end Code

inductive SerialOp (T : Type)
  | putc (t : T) (off : Bool) (byte : Byte) (inputFull : Bool)
  | retest (t : T)
  | resume (t : T) (inputFull : Bool)
  | interrupt (ready : Nat) (inputFull : Bool)
  | flush

/-- What a panic still does: it prints with interrupts off, and flushes. -/
def SerialOp.inPanic {T : Type} : SerialOp T → Bool
  | .putc _ off _ _ => off
  | .flush => true
  | .retest _ | .resume _ _ | .interrupt _ _ => false

/-- A call that has nothing to wait for. -/
def SerialOp.Prompt {T : Type} (x : Serial T) : SerialOp T → Prop
  | .putc t off _ _ => off = true ∨ x.txq.lock.phase t = .out ∧ x.txq.intqFull = false
  | .interrupt _ _ | .flush => True
  | .retest _ | .resume _ _ => False

/-- What a call adds to the queue: its byte, unless the thread has to wait for room. -/
def SerialOp.enqueues {T : Type} (x : Serial T) : SerialOp T → List Byte
  | .putc _ off byte _ => if off = false ∧ x.txq.intqFull then [] else [byte]
  | .resume t _ => if x.txq.intqFull then [] else [x.byte t]
  | .retest _ | .interrupt _ _ | .flush => []

def SerialOp.pending {T : Type} [DecidableEq T] (x : Serial T) : SerialOp T → T → Byte
  | .putc t off byte _ => if off = false ∧ x.txq.intqFull then update x.byte t byte else x.byte
  | .retest _ | .resume _ _ | .interrupt _ _ | .flush => x.byte

def Serial.commit {T : Type} (x : Serial T) : Except Panic (Serial T) → Serial T
  | .ok y => y
  | .error e => { x with failed := some e }

section Runs

variable {T : Type} [DecidableEq T]

def serialStep (x : Serial T) : SerialOp T → Option (Except Panic (Serial T))
  | .putc t off byte inputFull =>
    if off ∨ x.txq.lock.phase t = .out then some (serialPutc x t off byte inputFull) else none
  | .retest t =>
    if x.txq.lock.phase t = .woken then
      some (putAcquired { x.txq with lock := x.txq.lock.test t } t >>= fun q => .ok { x with txq := q })
    else none
  | .resume t inputFull =>
    if x.txq.lock.phase t = .held ∧ x.txq.asleep t = false then
      some (lockRelease x.txq t >>= fun q => enqueue { x with txq := q } t (x.byte t) inputFull)
    else none
  | .interrupt ready inputFull => some (serialInterrupt x ready inputFull)
  | .flush => some (serialFlush x)

def serialNext (x : Serial T) (op : SerialOp T) : Option (Serial T) :=
  if x.failed = none ∨ op.inPanic then (serialStep x op).map x.commit else none

def Serial.initial (T : Type) (buf : Nat → Byte) (byte : T → Byte) (ier : Nat) : Serial T :=
  ⟨Queue.initial T buf, byte, [], ier, none⟩

def serialSystem (T : Type) [DecidableEq T] : System (Serial T) (SerialOp T) where
  init x := ∃ buf byte ier, x = Serial.initial T buf byte ier
  next := serialNext

end Runs

structure InOrder {T : Type} (q : Queue T) (sent : List Byte) : Prop where
  fifo : ∃ xs, Ring intqBufsize q.buf q.head q.tail xs ∧ q.put = sent ++ xs
  noConsumer : q.notEmpty = none
  sleeper : ∀ t, q.notFull = some t → q.asleep t = true

namespace InOrder

variable {T : Type} {q : Queue T} {sent : List Byte} (h : InOrder q sent)

include h

lemma empty_iff : q.intqEmpty = true ↔ q.put = sent := by
  obtain ⟨xs, hring, hput⟩ := h.fifo
  rw [hput, List.append_right_eq_self, ← hring.head_eq_tail_iff]
  exact decide_eq_true_iff

lemma length_put_le : q.put.length ≤ sent.length + intqBufsize := by
  obtain ⟨xs, hring, hput⟩ := h.fifo
  have hroom := hring.room
  rw [hput, List.length_append]
  omega

lemma with_lock (l : LockUse T) : InOrder { q with lock := l } sent :=
  ⟨h.fifo, h.noConsumer, h.sleeper⟩

variable [DecidableEq T]

lemma intqTake (hsome : q.intqEmpty = false) :
    ∃ b q', Devices.intqTake q = .ok (b, q') ∧ InOrder q' (sent ++ [b]) ∧ q'.intqFull = false ∧ q'.put = q.put := by
  obtain ⟨xs, hring, hput⟩ := h.fifo
  cases xs with
  | nil => simp [Queue.intqEmpty, hring.head_eq_tail_iff.mpr rfl] at hsome
  | cons b xs =>
    obtain ⟨hb, hpop⟩ := hring.pop
    have hroom := hring.room
    have hfull : Queue.awaits { q with tail := next q.tail } .notFull = false := by
      refine decide_eq_false fun he => ?_
      have hlen := hpop.full_iff.mp he
      rw [List.length_cons] at hroom
      omega
    have hbytes : q.put = (sent ++ [b]) ++ xs := by
      rw [hput, List.append_assoc]
      rfl
    rw [Devices.intqTake, hb]
    rcases Option.eq_none_or_eq_some q.notFull with hw | ⟨u, hw⟩
    · rw [signal_none hfull hw, bind_ok]
      exact ⟨b, _, rfl, ⟨⟨xs, hpop, hbytes⟩, h.noConsumer, h.sleeper⟩, hfull, rfl⟩
    · rw [signal_some hfull hw (.inr (h.sleeper u hw)), bind_ok]
      exact ⟨b, _, rfl, ⟨⟨xs, hpop, hbytes⟩, h.noConsumer, fun t ht => by cases ht⟩, hfull, rfl⟩

lemma intqPutc (b : Byte) (hfull : q.intqFull = false) :
    ∃ q', Devices.intqPutc q b = .ok q' ∧ InOrder q' sent ∧ q'.put = q.put ++ [b] := by
  obtain ⟨xs, hring, hput⟩ := h.fifo
  have hpush := hring.push (of_decide_eq_false hfull) b
  have hsome : Queue.awaits { q with buf := update q.buf q.head b, head := next q.head } .notEmpty = false :=
    decide_eq_false (of_decide_eq_false hfull)
  rw [Devices.intqPutc, assertThat_pos (by simp [hfull]), bind_ok, signal_none hsome h.noConsumer, bind_ok]
  refine ⟨_, rfl, ⟨⟨xs ++ [b], hpush, ?_⟩, h.noConsumer, h.sleeper⟩, rfl⟩
  rw [hput, List.append_assoc]

lemma putAcquired {t : T} {q' : Queue T} (hq : Devices.putAcquired q t = .ok q') :
    InOrder q' sent ∧ q'.put = q.put := by
  rw [Devices.putAcquired] at hq
  split at hq
  · rw [wait, assertThat_bind_eq_ok] at hq
    obtain ⟨-, hq⟩ := hq
    cases hq
    refine ⟨⟨h.fifo, h.noConsumer, fun u hu => ?_⟩, rfl⟩
    obtain rfl : t = u := Option.some.inj hu
    exact update_self ..
  · cases hq
    exact ⟨h, rfl⟩

lemma lockRelease {t : T} {q' : Queue T} (hq : Devices.lockRelease q t = .ok q') :
    InOrder q' sent ∧ q'.put = q.put ∧ q'.intqFull = q.intqFull := by
  rw [Devices.lockRelease, assertThat_bind_eq_ok] at hq
  obtain ⟨-, hq⟩ := hq
  simp only [assertThat_bind_eq_ok] at hq
  obtain ⟨-, hq⟩ := hq
  cases hq
  exact ⟨h.with_lock _, rfl, rfl⟩

end InOrder

section Steps

variable {T : Type} {x y : Serial T}

/-- The queue stays in order, `bs` was added to it, and the threads asleep wait to add `byte`. -/
structure Adds (x y : Serial T) (bs : List Byte) (byte : T → Byte) : Prop where
  inOrder : InOrder y.txq y.sent
  put : y.txq.put = x.txq.put ++ bs
  byte : y.byte = byte

lemma Adds.trans {z : Serial T} {bs : List Byte} {byte : T → Byte} (h : Adds x y [] x.byte) (h' : Adds y z bs byte) :
    Adds x z bs byte := by
  refine ⟨h'.inOrder, ?_, h'.byte⟩
  rw [h'.put, h.put, List.append_nil]

lemma adds_nothing (h : InOrder x.txq x.sent) : Adds x x [] x.byte := ⟨h, (List.append_nil _).symm, rfl⟩

variable [DecidableEq T]

section

variable (h : InOrder x.txq x.sent)

include h

lemma sendOldest_ok (hsome : x.txq.intqEmpty = false) :
    ∃ y, sendOldest x = .ok y ∧ Adds x y [] x.byte ∧ y.txq.intqFull = false ∧
      y.sent.length = x.sent.length + 1 := by
  obtain ⟨b, q, hq, hin, hfull, hput⟩ := h.intqTake hsome
  refine ⟨putcPoll { x with txq := q } b, ?_, ⟨hin, ?_, rfl⟩, hfull, by simp [putcPoll]⟩
  · rw [sendOldest, hq]
    rfl
  · rw [List.append_nil]
    exact hput

lemma enqueue_adds {t : T} {b : Byte} {inputFull : Bool} (hy : enqueue x t b inputFull = .ok y) :
    Adds x y (if x.txq.intqFull then [] else [b]) (if x.txq.intqFull then update x.byte t b else x.byte) := by
  rw [enqueue] at hy
  split at hy
  · next hfull =>
    rw [assertThat_bind_eq_ok] at hy
    obtain ⟨q, hq, hy⟩ := bind_eq_ok.mp hy.2
    cases hy
    obtain ⟨hin, hput⟩ := (h.with_lock _).putAcquired hq
    rw [if_pos hfull, if_pos hfull]
    exact ⟨hin, hput.trans (List.append_nil _).symm, rfl⟩
  · next hfull =>
    obtain ⟨q, hq, hin, hput⟩ := h.intqPutc b (Bool.eq_false_iff.mpr hfull)
    rw [hq, bind_ok] at hy
    cases hy
    rw [if_neg hfull, if_neg hfull]
    exact ⟨hin, hput, rfl⟩

lemma serialPutc_adds {t : T} {off : Bool} {b : Byte} {inputFull : Bool}
    (hy : serialPutc x t off b inputFull = .ok y) :
    Adds x y (SerialOp.enqueues x (.putc t off b inputFull)) (SerialOp.pending x (.putc t off b inputFull)) := by
  rw [SerialOp.enqueues, SerialOp.pending]
  rw [serialPutc] at hy
  split at hy
  · next hfull =>
    obtain ⟨z, hz, hadds, hroom, -⟩ := sendOldest_ok h (Queue.empty_of_full hfull.2)
    rw [hz, bind_ok] at hy
    have hrest := enqueue_adds hadds.inOrder hy
    rw [if_neg (by simp [hroom]), if_neg (by simp [hroom]), hadds.byte] at hrest
    rw [if_neg (by simp [hfull.1]), if_neg (by simp [hfull.1])]
    exact hadds.trans hrest
  · next hnot =>
    have hfull : off = false ∧ x.txq.intqFull = true ↔ x.txq.intqFull = true :=
      and_iff_right_of_imp fun hf => by simpa [hf] using hnot
    simp only [hfull]
    exact enqueue_adds h hy

lemma transmit_ok (ready : Nat) : ∃ y, transmit x ready = .ok y ∧ Adds x y [] x.byte := by
  induction ready generalizing x with
  | zero => exact ⟨x, rfl, adds_nothing h⟩
  | succ ready ih =>
    rw [transmit]
    split
    · exact ⟨x, rfl, adds_nothing h⟩
    · next hsome =>
      obtain ⟨y, hy, hadds, -⟩ := sendOldest_ok h (Bool.eq_false_iff.mpr hsome)
      obtain ⟨z, hz, hrest⟩ := ih hadds.inOrder
      rw [hadds.byte] at hrest
      rw [hy, bind_ok]
      exact ⟨z, hz, hadds.trans hrest⟩

lemma transmit_all {ready : Nat} (hlen : x.txq.put.length ≤ x.sent.length + ready) :
    ∃ y, transmit x ready = .ok y ∧ y.sent = x.txq.put := by
  induction ready generalizing x with
  | zero =>
    obtain ⟨xs, -, hput⟩ := h.fifo
    rw [hput, List.length_append] at hlen
    have hnil : xs = [] := List.eq_nil_of_length_eq_zero (by omega)
    exact ⟨x, rfl, by rw [hput, hnil, List.append_nil]⟩
  | succ ready ih =>
    rw [transmit]
    split
    · next hempty => exact ⟨x, rfl, (h.empty_iff.mp hempty).symm⟩
    · next hsome =>
      obtain ⟨y, hy, hadds, -, hsent⟩ := sendOldest_ok h (Bool.eq_false_iff.mpr hsome)
      have hput : y.txq.put = x.txq.put := by rw [hadds.put, List.append_nil]
      rw [hy, bind_ok, ← hput]
      exact ih hadds.inOrder (by rw [hput, hsent]; omega)

lemma serialStep_adds {op : SerialOp T} (hs : serialStep x op = some (.ok y)) :
    Adds x y (op.enqueues x) (op.pending x) := by
  cases op with
  | putc t off b inputFull =>
    simp only [serialStep, guard_eq_some] at hs
    exact serialPutc_adds h hs.2
  | retest t =>
    simp only [serialStep, guard_eq_some] at hs
    obtain ⟨q, hq, hy⟩ := bind_eq_ok.mp hs.2
    cases hy
    obtain ⟨hin, hput⟩ := (h.with_lock _).putAcquired hq
    exact ⟨hin, hput.trans (List.append_nil _).symm, rfl⟩
  | resume t inputFull =>
    simp only [serialStep, guard_eq_some] at hs
    obtain ⟨q, hq, hy⟩ := bind_eq_ok.mp hs.2
    obtain ⟨hin, hput, hfull⟩ := h.lockRelease hq
    have hadds := enqueue_adds (x := { x with txq := q }) hin hy
    simp only [hfull, update_eq_self, ite_self] at hadds
    exact ⟨hadds.inOrder, hput ▸ hadds.put, hadds.byte⟩
  | interrupt ready inputFull =>
    obtain ⟨z, hz, hadds⟩ := transmit_ok h ready
    simp only [serialStep, serialInterrupt, hz, bind_ok, Option.some.injEq] at hs
    cases hs
    exact ⟨hadds.inOrder, hadds.put, hadds.byte⟩
  | flush =>
    obtain ⟨z, hz, hadds⟩ := transmit_ok h intqBufsize
    simp only [serialStep, serialFlush, hz, Option.some.injEq] at hs
    cases hs
    exact hadds

omit h in
lemma reachable_inOrder (h : (serialSystem T).Reachable x) : InOrder x.txq x.sent := by
  refine h.invariant (I := fun x => InOrder x.txq x.sent) ?_ ?_
  · rintro x ⟨buf, byte, ier, rfl⟩
    exact ⟨⟨[], Ring.nil (Nat.zero_lt_succ 63) buf, rfl⟩, rfl, fun t ht => nomatch ht⟩
  · intro x op y hin hs
    simp only [serialSystem, serialNext, Option.ite_none_right_eq_some, Option.map_eq_some_iff] at hs
    obtain ⟨-, r, hr, rfl⟩ := hs
    cases r with
    | ok y => exact (serialStep_adds hin hr).inOrder
    | error e => exact hin

lemma enqueue_ok (t : T) (b : Byte) (inputFull : Bool) (hfull : x.txq.intqFull = false) :
    ∃ y, enqueue x t b inputFull = .ok y := by
  obtain ⟨q, hq, -, -⟩ := h.intqPutc b hfull
  rw [enqueue, if_neg (by simp [hfull]), hq]
  exact ⟨_, rfl⟩

lemma serialPutc_ok (t : T) {off : Bool} (b : Byte) (inputFull : Bool) (hroom : off = true ∨ x.txq.intqFull = false) :
    ∃ y, serialPutc x t off b inputFull = .ok y := by
  rw [serialPutc]
  split
  · next hfull =>
    obtain ⟨z, hz, hadds, hroom, -⟩ := sendOldest_ok h (Queue.empty_of_full hfull.2)
    rw [hz, bind_ok]
    exact enqueue_ok hadds.inOrder t b inputFull hroom
  · next hnot =>
    refine enqueue_ok h t b inputFull (hroom.elim (fun hoff => ?_) id)
    simpa [hoff] using hnot

lemma SerialOp.Prompt.step_ok {op : SerialOp T} (hop : op.Prompt x) : ∃ y, serialStep x op = some (.ok y) := by
  cases op with
  | putc t off b inputFull =>
    obtain ⟨y, hy⟩ := serialPutc_ok h t b inputFull (hop.imp_right And.right)
    exact ⟨y, by rw [serialStep, if_pos (hop.imp_right And.left), hy]⟩
  | retest t => exact hop.elim
  | resume t inputFull => exact hop.elim
  | interrupt ready inputFull =>
    obtain ⟨y, hy, -⟩ := transmit_ok h ready
    exact ⟨writeIer y inputFull, by rw [serialStep, serialInterrupt, hy]; rfl⟩
  | flush =>
    obtain ⟨y, hy, -⟩ := transmit_ok h intqBufsize
    exact ⟨y, by rw [serialStep, serialFlush, hy]⟩

end

theorem serial_in_order (h : (serialSystem T).Reachable x) :
    x.txq.put = x.sent ++ x.txq.contents ∧
      (∀ (op : SerialOp T) (y : Serial T), serialStep x op = some (.ok y) →
        y.txq.put = x.txq.put ++ op.enqueues x ∧ y.byte = op.pending x) ∧
      (∀ op : SerialOp T, op.Prompt x → ∃ y, serialStep x op = some (.ok y)) ∧
      ∃ y, serialFlush x = .ok y ∧ y.sent = x.txq.put := by
  have hin := reachable_inOrder h
  obtain ⟨xs, hring, hput⟩ := hin.fifo
  refine ⟨?_, fun op y hs => ?_, fun op hop => hop.step_ok hin, transmit_all hin hin.length_put_le⟩
  · rw [hput, contents_of_ring hring]
  · have hadds := serialStep_adds hin hs
    exact ⟨hadds.put, hadds.byte⟩

end Steps

theorem serial_in_order_after_overflow :
    ∃ x : Serial Nat, (serialSystem Nat).Reachable x ∧ x.sent = [0] ∧ x.txq.put.length = 64 ∧
      x.txq.put = x.sent ++ x.txq.contents := by
  have hrun : ((serialSystem Nat).exec (Serial.initial Nat (fun _ => 0) (fun _ => 0) 0)
      ((List.range 64).map fun k => .putc 1 true (BitVec.ofNat 8 k) false)).map
        (fun x => (x.sent, x.txq.put.length)) = some ([0], 64) := by
    decide +kernel
  obtain ⟨x, hx, hend⟩ := Option.map_eq_some_iff.mp hrun
  simp only [Prod.mk.injEq] at hend
  have hr : (serialSystem Nat).Reachable x := System.exec_reachable (.init ⟨_, _, _, rfl⟩) hx
  exact ⟨x, hr, hend.1, hend.2, (serial_in_order hr).1⟩

end Pintos.Devices
