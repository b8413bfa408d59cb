import Pintos.Synch.Semaphore

/-! The scheduler: thread states, the run queue, and blocking on semaphores. -/

namespace Pintos.Threads

open Pintos.Foundation Pintos.Synch Function

inductive Status
  | running
  | ready
  | blocked
  | dying
  deriving DecidableEq, Repr

/-- Where a thread is in its code. Interrupts are off inside the loop of `sema_down` and on elsewhere. -/
inductive Cont
  | body
  | semaDown (σ : Nat)
  | idleStart (σ : Nat)
  | idleUp (σ : Nat)
  | idleLoop
  deriving DecidableEq, Repr

def Cont.isIdle : Cont → Bool
  | .body | .semaDown _ => false
  | .idleStart _ | .idleUp _ | .idleLoop => true

def Cont.interruptsOn : Cont → Bool
  | .semaDown _ => false
  | .body | .idleStart _ | .idleUp _ | .idleLoop => true

/-- Threads and semaphores are numbered; a thread has no status before it is created and after its
page is freed. `idleTid` is the thread that was created to run `idle`. -/
structure State where
  status : Nat → Option Status
  created : Nat
  current : Nat
  readyList : List Nat
  idleThread : Option Nat
  idleTid : Option Nat
  sema : Nat → Semaphore Nat
  cont : Nat → Cont

def initialThread : Nat := 0

def State.setStatus (s : State) (t : Nat) (st : Option Status) : State :=
  { s with status := update s.status t st }

def State.setCont (s : State) (t : Nat) (c : Cont) : State := { s with cont := update s.cont t c }

def State.setSema (s : State) (σ : Nat) (m : Semaphore Nat) : State :=
  { s with sema := update s.sema σ m }

def threadScheduleTail (s : State) (prev : Option Nat) : State :=
  let s := s.setStatus s.current (some .running)
  match prev with
  | none => s
  | some p => if s.status p = some .dying ∧ p ≠ initialThread then s.setStatus p none else s

def nextThreadToRun (s : State) : Option Nat × State :=
  match s.readyList with
  | [] => (s.idleThread, s)
  | t :: rest => (some t, { s with readyList := rest })

def schedule (s : State) : Option State :=
  match nextThreadToRun s with
  | (none, _) => none
  | (some t, s) => some (threadScheduleTail { s with current := t }
      (if s.current = t then none else some s.current))

def threadBlock (s : State) : Option State := schedule (s.setStatus s.current (some .blocked))

def threadUnblock (s : State) (t : Nat) : Option State :=
  if s.status t = some .blocked then
    some ({ s with readyList := s.readyList ++ [t] }.setStatus t (some .ready))
  else none

def threadYield (s : State) : Option State :=
  schedule ({ s with
    readyList := if s.idleThread = some s.current then s.readyList
      else s.readyList ++ [s.current] }.setStatus s.current (some .ready))

def threadExit (s : State) : Option State := schedule (s.setStatus s.current (some .dying))

def threadCreate (s : State) (c : Cont) : State :=
  { s with
    status := update s.status s.created (some .blocked)
    cont := update s.cont s.created c
    created := s.created + 1 }

def semaDownPass (s : State) (σ : Nat) : Option State :=
  let (passed, m) := semaDown (s.sema σ) s.current
  if passed then some ((s.setSema σ m).setCont s.current .body)
  else threadBlock ((s.setSema σ m).setCont s.current (.semaDown σ))

def semaUp (s : State) (σ : Nat) : Option State :=
  match Synch.semaUp (s.sema σ) with
  | (none, m) => some (s.setSema σ m)
  | (some t, m) => threadUnblock (s.setSema σ m) t

inductive Event
  | create
  | start (σ : Nat)
  | block
  | unblock (t : Nat)
  | yield
  | exit
  | down (σ : Nat)
  | retest
  | tryDown (σ : Nat)
  | up (σ : Nat)
  | setIdle
  | idleUp
  | idleBlock

/-- What the current thread, or an interrupt handler, does next. Any thread may be unblocked that has
called `thread_block` outside of `sema_down`, or that has just been created. -/
def next (s : State) : Event → Option State
  | .create => if s.cont s.current = .body then some (threadCreate s .body) else none
  | .start σ =>
    if s.cont s.current = .body ∧ s.idleTid = none then
      some { threadCreate s (.idleStart σ) with idleTid := some s.created }
    else none
  | .block => if s.cont s.current = .body then threadBlock s else none
  | .unblock t =>
    if (s.cont s.current).interruptsOn ∧ (s.cont t).interruptsOn ∧ s.idleThread ≠ some t then
      threadUnblock s t
    else none
  | .yield => if (s.cont s.current).interruptsOn then threadYield s else none
  | .exit => if s.cont s.current = .body then threadExit s else none
  | .down σ => if s.cont s.current = .body then semaDownPass s σ else none
  | .retest =>
    match s.cont s.current with
    | .semaDown σ => semaDownPass s σ
    | _ => none
  | .tryDown σ =>
    if (s.cont s.current).interruptsOn then some (s.setSema σ (semaTryDown (s.sema σ)).2) else none
  | .up σ => if (s.cont s.current).interruptsOn then semaUp s σ else none
  | .setIdle =>
    match s.cont s.current with
    | .idleStart σ => some ({ s with idleThread := some s.current }.setCont s.current (.idleUp σ))
    | _ => none
  | .idleUp =>
    match s.cont s.current with
    | .idleUp σ => semaUp (s.setCont s.current .idleLoop) σ
    | _ => none
  | .idleBlock => if s.cont s.current = .idleLoop then threadBlock s else none

def threadInit (value : Nat → Nat) : State where
  status := update (fun _ => none) initialThread (some .running)
  created := 1
  current := initialThread
  readyList := []
  idleThread := none
  idleTid := none
  sema σ := ⟨value σ, []⟩
  cont _ := .body

def system (value : Nat → Nat) : System State Event where
  init s := s = threadInit value
  next := next

end Pintos.Threads
