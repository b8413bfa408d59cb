import Pintos.Synch.Lock

/-! Condition variables, under any interleaving of threads that hold the lock where they must. -/

namespace Pintos.Synch

open Pintos.Foundation Function

/-- A `cond_signal` or `cond_broadcast` in progress: the calls that were enqueued and the calls that
had been released when it began, and the calls that it has released. -/
structure Job where
  loop : Bool
  queue : List Nat
  before : List Nat
  done : List Nat
  deriving DecidableEq, Repr

inductive Stage
  | out
  | waitRelease (c : Nat)
  | waitDown (c : Nat)
  | waitBlocked (c : Nat)
  | waitWoken (c : Nat)
  | waitAcquire (c : Nat)
  | signalUp (c : Nat) (j : Job)
  | broadcast (j : Job)
  deriving DecidableEq, Repr

def Stage.call : Stage → Option Nat
  | .waitRelease c | .waitDown c | .waitBlocked c | .waitWoken c | .waitAcquire c => some c
  | .out | .signalUp _ _ | .broadcast _ => none

/-- A condition variable with its lock. `sema c` is the semaphore on the stack of call `c`; the lists
from `removed` on are histories. -/
structure CondUse (T : Type*) where
  lock : LockUse T
  stage : T → Stage
  waiters : List Nat
  sema : Nat → Semaphore T
  calls : Nat
  removed : List Nat
  released : List Nat
  passed : List Nat
  returned : List Nat

inductive CondOp (T : Type*)
  | lock (op : LockOp T)
  | wait (t : T)
  | down (t : T)
  | signal (t : T)
  | broadcast (t : T)
  | loop (t : T)
  | up (t : T)

variable {T : Type*}

def LockOp.thread : LockOp T → T
  | .acquire t | .down t | .retest t | .setHolder t | .tryAcquire t | .tryDown t | .release t
  | .clear t | .up t => t

def lockStage : Stage → LockOp T → Option Stage
  | .out, _ => some .out
  | .waitRelease c, .release _ | .waitRelease c, .clear _ => some (.waitRelease c)
  | .waitRelease c, .up _ => some (.waitDown c)
  | .waitAcquire c, .acquire _ | .waitAcquire c, .down _ | .waitAcquire c, .retest _ =>
    some (.waitAcquire c)
  | .waitAcquire _, .setHolder _ => some .out
  | _, _ => none

def callReturned : Stage → LockOp T → List Nat
  | .waitAcquire c, .setHolder _ => [c]
  | _, _ => []

variable [DecidableEq T]

@[simps -fullyApplied]
def CondUse.setStage (x : CondUse T) (t : T) (st : Stage) : CondUse T :=
  { x with stage := update x.stage t st }

def CondUse.Holds (x : CondUse T) (t : T) : Prop :=
  x.stage t = .out ∧ x.lock.phase t = .held ∧ x.lock.lock.holder = some t

instance (x : CondUse T) (t : T) : Decidable (x.Holds t) := inferInstanceAs (Decidable (_ ∧ _))

def CondUse.pop (x : CondUse T) (t : T) (c : Nat) (rest : List Nat) (j : Job) : CondUse T :=
  { x with waiters := rest, removed := x.removed ++ [c] }.setStage t (.signalUp c j)

def condNext (x : CondUse T) : CondOp T → Option (CondUse T)
  | .lock op =>
    match lockNext x.lock op, lockStage (x.stage op.thread) op with
    | some l, some st => some ({ x with
        lock := l
        returned := x.returned ++ callReturned (x.stage op.thread) op }.setStage op.thread st)
    | _, _ => none
  | .wait t =>
    if x.Holds t then
      some ({ x with
        sema := update x.sema x.calls ⟨0, []⟩
        waiters := x.waiters ++ [x.calls]
        calls := x.calls + 1 }.setStage t (.waitRelease x.calls))
    else none
  | .down t =>
    match x.stage t with
    | .waitDown c | .waitWoken c =>
      let (passed, m) := semaDown (x.sema c) t
      some ({ x with
        sema := update x.sema c m
        passed := if passed then x.passed ++ [c] else x.passed }.setStage t
          (if passed then .waitAcquire c else .waitBlocked c))
    | _ => none
  | .signal t =>
    if x.Holds t then
      match x.waiters with
      | [] => some x
      | c :: rest => some (x.pop t c rest ⟨false, x.waiters, x.released, []⟩)
    else none
  | .broadcast t =>
    if x.Holds t then some (x.setStage t (.broadcast ⟨true, x.waiters, x.released, []⟩)) else none
  | .loop t =>
    match x.stage t with
    | .broadcast j =>
      match x.waiters with
      | [] => some (x.setStage t .out)
      | c :: rest => if x.lock.lock.holder = some t then some (x.pop t c rest j) else none
    | _ => none
  | .up t =>
    match x.stage t with
    | .signalUp c j =>
      let (woken, m) := semaUp (x.sema c)
      let y := { x with sema := update x.sema c m, released := x.released ++ [c] }.setStage t
        (if j.loop then .broadcast { j with done := j.done ++ [c] } else .out)
      match woken with
      | none => some y
      | some u => some (y.setStage u (.waitWoken c))
    | _ => none

end Pintos.Synch
