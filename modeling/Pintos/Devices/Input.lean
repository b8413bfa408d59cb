import Pintos.Devices.Serial

/-! The input buffer and the serial port together, and the interrupts that they enable. -/

namespace Pintos.Devices

open Pintos.Foundation Pintos.Kernel Pintos.Synch Function

/-- The port, with the panic if there was one, and the buffer of keys from the keyboard and the port. -/
structure Console (T : Type) where
  port : Serial T
  buffer : Queue T

section Code

variable {T : Type} [DecidableEq T]

def serialNotify (x : Console T) : Console T := { x with port := writeIer x.port x.buffer.intqFull }

def inputPutc (x : Console T) (key : Byte) : Except Panic (Console T) := do
  assertThat (¬ x.buffer.intqFull) .inputPutcFull
  let q ← intqPutc x.buffer key
  return serialNotify { x with buffer := q }

/-- `input_getc` up to its end, or to the first `thread_block` in `intq_getc`. -/
def inputGetc (x : Console T) (t : T) : Except Panic (Console T) := do
  let q ← intqGetc x.buffer t
  if x.buffer.intqEmpty then return { x with buffer := q } else return serialNotify { x with buffer := q }

/-- The loop that receives, for as many bytes as the hardware has. -/
def receive (x : Console T) : List Byte → Except Panic (Console T)
  | [] => .ok x
  | byte :: bytes => if x.buffer.intqFull then .ok x else inputPutc x byte >>= fun y => receive y bytes

def onPort (x : Console T) (r : Except Panic (Serial T)) : Except Panic (Console T) := do
  let port ← r
  return { x with port := port }

end Code

inductive ConsoleOp (T : Type)
  | putc (t : T) (off : Bool) (byte : Byte)
  | retestPutc (t : T)
  | resumePutc (t : T)
  | flush
  | interrupt (received : List Byte) (ready : Nat)
  | key (byte : Byte)
  | getc (t : T)
  | retestGetc (t : T)
  | resumeGetc (t : T)

def ConsoleOp.inPanic {T : Type} : ConsoleOp T → Bool
  | .putc _ off _ => off
  | .flush => true
  | _ => false

def Console.commit {T : Type} (x : Console T) : Except Panic (Console T) → Console T
  | .ok y => y
  | .error e => { x with port := { x.port with failed := some e } }

section Runs

variable {T : Type} [DecidableEq T]

/-- What an operation does to the port, where it does not touch the buffer. -/
def portOp (x : Console T) : ConsoleOp T → Option (SerialOp T)
  | .putc t off byte => some (.putc t off byte x.buffer.intqFull)
  | .retestPutc t => some (.retest t)
  | .resumePutc t => some (.resume t x.buffer.intqFull)
  | .flush => some .flush
  | _ => none

/-- Interrupts are off in each of these, so that they may come on only between two of them. -/
def consoleStep (x : Console T) : ConsoleOp T → Option (Except Panic (Console T))
  | .interrupt received ready => some do
    let x ← receive x received
    onPort x (serialInterrupt x.port ready x.buffer.intqFull)
  | .key byte => if x.buffer.intqFull then none else some (inputPutc x byte)
  | .getc t => if x.buffer.lock.phase t = .out then some (inputGetc x t) else none
  | .retestGetc t =>
    if x.buffer.lock.phase t = .woken then some do
      let q ← lockAcquired { x.buffer with lock := x.buffer.lock.test t } t
      return { x with buffer := q }
    else none
  | .resumeGetc t =>
    if x.buffer.lock.phase t = .held ∧ x.buffer.asleep t = false then some do
      let q ← lockRelease x.buffer t
      inputGetc { x with buffer := q } t
    else none
  | op => do
    let op ← portOp x op
    let r ← serialStep x.port op
    return onPort x r

def consoleNext (x : Console T) (op : ConsoleOp T) : Option (Console T) :=
  if x.port.failed = none ∨ op.inPanic then (consoleStep x op).map x.commit else none

/-- The port as `serial_init_queue` leaves it. Keys may have come before. -/
def consoleSystem (T : Type) [DecidableEq T] : System (Console T) (ConsoleOp T) where
  init x := ∃ buf byte ier, x = serialNotify ⟨Serial.initial T buf byte ier, x.buffer⟩
  next := consoleNext

end Runs

/-- The register has the transmit bit unless the one queue is empty, and the receive bit unless the other is full. -/
structure Enabled (ier : Nat) (empty full : Bool) : Prop where
  xmit : empty = false → ier &&& ierXmit ≠ 0
  recv : full = false → ier &&& ierRecv ≠ 0

def Console.Unmasked {T : Type} (x : Console T) : Prop :=
  Enabled x.port.ier x.port.txq.intqEmpty x.buffer.intqFull

/-- The second queue holds as many bytes as the first, at the same places. -/
structure SameEnds {T : Type} (q r : Queue T) : Prop where
  empty : r.intqEmpty = q.intqEmpty
  full : r.intqFull = q.intqFull

section Masks

variable {T : Type} {full : Bool}

lemma enabled_writeIer (s : Serial T) (full : Bool) : Enabled (writeIer s full).ier s.txq.intqEmpty full := by
  constructor
  · intro he
    cases full <;> simp [writeIer, he, ierXmit, ierRecv]
  · rintro rfl
    cases he : s.txq.intqEmpty <;> simp [writeIer, he, ierXmit, ierRecv]

lemma Enabled.of_some {ier : Nat} (h : Enabled ier false full) (empty : Bool) : Enabled ier empty full :=
  ⟨fun _ => h.xmit rfl, h.recv⟩

variable [DecidableEq T] {q r : Queue T} {t : T}

lemma sameEnds_of_wait {w : Waiter} (h : wait q t w = .ok r) : SameEnds q r := by
  rw [wait, assertThat_bind_eq_ok] at h
  obtain ⟨-, h⟩ := h
  cases h
  cases w <;> exact ⟨rfl, rfl⟩

lemma sameEnds_of_putAcquired (h : putAcquired q t = .ok r) : SameEnds q r := by
  rw [putAcquired] at h
  split at h
  · exact ⟨(sameEnds_of_wait h).empty, (sameEnds_of_wait h).full⟩
  · cases h
    exact ⟨rfl, rfl⟩

lemma sameEnds_of_lockAcquired (h : lockAcquired q t = .ok r) : SameEnds q r := by
  rw [lockAcquired] at h
  split at h
  · exact ⟨(sameEnds_of_wait h).empty, (sameEnds_of_wait h).full⟩
  · cases h
    exact ⟨rfl, rfl⟩

lemma sameEnds_of_lockRelease (h : lockRelease q t = .ok r) : SameEnds q r := by
  rw [lockRelease, assertThat_bind_eq_ok] at h
  obtain ⟨-, h⟩ := h
  simp only [assertThat_bind_eq_ok] at h
  obtain ⟨-, h⟩ := h
  cases h
  exact ⟨rfl, rfl⟩

variable {s u : Serial T}

lemma sendOldest_ier (h : sendOldest s = .ok u) : u.ier = s.ier := by
  obtain ⟨⟨byte, q⟩, -, h⟩ := bind_eq_ok.mp h
  cases h
  rfl

lemma enqueue_enabled {byte : Byte} (hs : Enabled s.ier s.txq.intqEmpty full) (h : enqueue s t byte full = .ok u) :
    Enabled u.ier u.txq.intqEmpty full := by
  rw [enqueue] at h
  split at h
  · rw [assertThat_bind_eq_ok] at h
    obtain ⟨q, hq, h⟩ := bind_eq_ok.mp h.2
    cases h
    rw [(sameEnds_of_putAcquired hq).empty]
    exact hs
  · obtain ⟨q, -, h⟩ := bind_eq_ok.mp h
    cases h
    exact enabled_writeIer { s with txq := q } full

lemma serialPutc_enabled {off : Bool} {byte : Byte} (hs : Enabled s.ier s.txq.intqEmpty full)
    (h : serialPutc s t off byte full = .ok u) : Enabled u.ier u.txq.intqEmpty full := by
  rw [serialPutc] at h
  split at h
  · next hfull =>
    obtain ⟨v, hv, h⟩ := bind_eq_ok.mp h
    rw [Queue.empty_of_full hfull.2] at hs
    refine enqueue_enabled ?_ h
    rw [sendOldest_ier hv]
    exact hs.of_some _
  · exact enqueue_enabled hs h

lemma transmit_enabled {ready : Nat} (hs : Enabled s.ier s.txq.intqEmpty full) (h : transmit s ready = .ok u) :
    Enabled u.ier u.txq.intqEmpty full := by
  induction ready generalizing s with
  | zero =>
    cases h
    exact hs
  | succ ready ih =>
    rw [transmit] at h
    split at h
    · cases h
      exact hs
    · next hsome =>
      obtain ⟨v, hv, h⟩ := bind_eq_ok.mp h
      rw [Bool.eq_false_iff.mpr hsome] at hs
      refine ih ?_ h
      rw [sendOldest_ier hv]
      exact hs.of_some _

variable {x y : Console T}

lemma inputPutc_unmasked {key : Byte} (h : inputPutc x key = .ok y) : y.Unmasked := by
  rw [inputPutc, assertThat_bind_eq_ok] at h
  obtain ⟨q, -, h⟩ := bind_eq_ok.mp h.2
  cases h
  exact enabled_writeIer x.port q.intqFull

lemma inputGetc_unmasked (hx : x.Unmasked) (h : inputGetc x t = .ok y) : y.Unmasked := by
  obtain ⟨q, hq, h⟩ := bind_eq_ok.mp h
  split at h
  · next hempty =>
    cases h
    rw [intqGetc, if_pos hempty, assertThat_bind_eq_ok] at hq
    have hends := sameEnds_of_lockAcquired hq.2
    rw [Console.Unmasked, hends.full]
    exact hx
  · cases h
    exact enabled_writeIer x.port q.intqFull

/-- The port's own operations read `input_full` and leave the buffer alone. -/
lemma portOp_unmasked {op : ConsoleOp T} {p : SerialOp T} (hx : x.Unmasked) (hp : portOp x op = some p)
    (hs : serialStep x.port p = some (.ok u)) : Enabled u.ier u.txq.intqEmpty x.buffer.intqFull := by
  cases op with
  | putc t off byte =>
    cases hp
    simp only [serialStep, guard_eq_some] at hs
    exact serialPutc_enabled hx hs.2
  | retestPutc t =>
    cases hp
    simp only [serialStep, guard_eq_some] at hs
    obtain ⟨q, hq, hu⟩ := bind_eq_ok.mp hs.2
    cases hu
    rw [(sameEnds_of_putAcquired hq).empty]
    exact hx
  | resumePutc t =>
    cases hp
    simp only [serialStep, guard_eq_some] at hs
    obtain ⟨q, hq, hu⟩ := bind_eq_ok.mp hs.2
    refine enqueue_enabled (s := { x.port with txq := q }) ?_ hu
    rw [(sameEnds_of_lockRelease hq).empty]
    exact hx
  | flush =>
    cases hp
    exact transmit_enabled hx (Option.some.inj hs)
  | interrupt | key | getc | retestGetc | resumeGetc => cases hp

lemma consoleStep_unmasked {op : ConsoleOp T} (hx : x.Unmasked) (hs : consoleStep x op = some (.ok y)) :
    y.Unmasked := by
  have hport : ∀ p r, portOp x op = some p → serialStep x.port p = some r → onPort x r = .ok y → y.Unmasked := by
    intro p r hp hr hy
    obtain ⟨u, rfl, hy⟩ := bind_eq_ok.mp hy
    cases hy
    have henabled := portOp_unmasked hx hp hr
    exact henabled
  cases op with
  | putc | retestPutc | resumePutc =>
    obtain ⟨r, hr, hs⟩ := Option.bind_eq_some_iff.mp hs
    exact hport _ r rfl hr (Option.some.inj hs)
  | flush => exact hport _ _ rfl rfl (Option.some.inj hs)
  | interrupt received ready =>
    obtain ⟨z, -, hs⟩ := bind_eq_ok.mp (Option.some.inj hs)
    obtain ⟨u, hu, hs⟩ := bind_eq_ok.mp hs
    obtain ⟨v, -, hu⟩ := bind_eq_ok.mp hu
    cases hu
    cases hs
    exact enabled_writeIer v z.buffer.intqFull
  | key byte =>
    simp only [consoleStep, Option.ite_none_left_eq_some, Option.some.injEq] at hs
    exact inputPutc_unmasked hs.2
  | getc t =>
    simp only [consoleStep, guard_eq_some] at hs
    exact inputGetc_unmasked hx hs.2
  | retestGetc t =>
    simp only [consoleStep, guard_eq_some] at hs
    obtain ⟨q, hq, hy⟩ := bind_eq_ok.mp hs.2
    cases hy
    rw [Console.Unmasked, (sameEnds_of_lockAcquired hq).full]
    exact hx
  | resumeGetc t =>
    simp only [consoleStep, guard_eq_some] at hs
    obtain ⟨q, hq, hy⟩ := bind_eq_ok.mp hs.2
    refine inputGetc_unmasked ?_ hy
    rw [Console.Unmasked, (sameEnds_of_lockRelease hq).full]
    exact hx

theorem reachable_unmasked (h : (consoleSystem T).Reachable x) :
    (x.port.txq.intqEmpty = false → x.port.ier &&& ierXmit ≠ 0) ∧
      (x.buffer.intqFull = false → x.port.ier &&& ierRecv ≠ 0) := by
  have hx : x.Unmasked := by
    refine h.invariant (I := Console.Unmasked) ?_ ?_
    · rintro x ⟨buf, byte, ier, hx⟩
      rw [hx]
      exact enabled_writeIer (Serial.initial T buf byte ier) x.buffer.intqFull
    · intro x op y hx hs
      simp only [consoleSystem, consoleNext, Option.ite_none_right_eq_some, Option.map_eq_some_iff] at hs
      obtain ⟨-, r, hr, rfl⟩ := hs
      cases r with
      | ok y => exact consoleStep_unmasked hx hr
      | error e => exact hx
  exact ⟨hx.xmit, hx.recv⟩

end Masks

theorem unmasked_after_flush_and_putc : ∃ x : Console Nat, (consoleSystem Nat).Reachable x ∧
    x.port.txq.contents = [66] ∧ x.buffer.contents = [7] ∧ x.port.ier &&& ierXmit ≠ 0 ∧ x.port.ier &&& ierRecv ≠ 0 := by
  let start : Console Nat :=
    serialNotify ⟨Serial.initial Nat (fun _ => 0) (fun _ => 0) 0, Queue.initial Nat fun _ => 0⟩
  have hrun : ((consoleSystem Nat).exec start
      [.getc 2, .putc 1 false 65, .flush, .interrupt [5] 1, .resumeGetc 2, .putc 1 false 66, .key 7]).map
        (fun x => (x.port.txq.contents, x.buffer.contents, x.port.txq.intqEmpty, x.buffer.intqFull)) =
          some ([66], [7], false, false) := by
    decide +kernel
  obtain ⟨x, hx, hend⟩ := Option.map_eq_some_iff.mp hrun
  simp only [Prod.mk.injEq] at hend
  obtain ⟨hout, hin, hempty, hfull⟩ := hend
  have hr : (consoleSystem Nat).Reachable x := System.exec_reachable (.init ⟨_, _, _, rfl⟩) hx
  obtain ⟨hxmit, hrecv⟩ := reachable_unmasked hr
  exact ⟨x, hr, hout, hin, hxmit hempty, hrecv hfull⟩

end Pintos.Devices
