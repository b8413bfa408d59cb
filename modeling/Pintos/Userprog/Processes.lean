import Mathlib.Algebra.Group.Int.Defs
import Mathlib.Logic.Function.Basic
import Pintos.Synch.Semaphore

/-! Processes that start, wait for and outlive one another: `exec`, `process_wait` and `thread_exit`
under any interleaving. -/

namespace Pintos.Userprog

open Pintos.Foundation Pintos.Synch Function

def tidError : Int := -1

structure Thread where
  tid : Int
  exitStatus : Int
  childList : List Nat
  pagedir : Bool
  waitSema : Semaphore Nat
  destroySema : Semaphore Nat
  loadSema : Semaphore Nat
  loadSucceeded : Bool
  deriving DecidableEq, Repr

def initThread (tid : Int) : Thread where
  tid := tid
  exitStatus := 0
  childList := []
  pagedir := false
  waitSema := ⟨0, []⟩
  destroySema := ⟨0, []⟩
  loadSema := ⟨0, []⟩
  loadSucceeded := false

structure Params where
  len : Nat
  cmdline : List UInt8
  deriving DecidableEq, Repr

/-- The copy that `process_execute` makes of its argument: at most 3579 characters, that is
`PGSIZE - sizeof (struct uprg_params) - 1`, each space replaced by a null. -/
def prepare (cmdline : List UInt8) : Params where
  len := (cmdline.take 3579).length
  cmdline := (cmdline.take 3579).map fun b => if b = 32 then 0 else b

inductive Starter
  | runTask
  | exec
  deriving DecidableEq, Repr

inductive Finder
  | exec
  | wait
  deriving DecidableEq, Repr

inductive Work
  | runTask
  | exec
  | wait (tid : Int)
  deriving DecidableEq, Repr

inductive Result
  | exec (child : Option Nat) (value : Int)
  | wait (tid : Int) (child : Option Nat) (value : Int)
  deriving DecidableEq, Repr

inductive Leaving
  | exit (status : Int)
  | killed
  | loadFailed
  | finished
  deriving DecidableEq, Repr

def Leaving.status : Leaving → Int
  | .exit status => status
  | .killed | .loadFailed | .finished => -1

/-- Where a thread is. `fault` is a thread that has used a `struct thread` after it was freed, and
`panic` one whose assertion in `exec` has failed. -/
inductive Loc
  | unused
  | running
  | execute (u : Starter) (cmdline : List UInt8)
  | create (u : Starter) (params : Params)
  | link (u : Starter) (c : Nat) (params : Params)
  | find (f : Finder) (tid : Int) (rest : List Nat)
  | down (f : Finder) (tid : Int) (c : Nat)
  | blocked (f : Finder) (tid : Int) (c : Nat)
  | testLoaded (tid : Int) (c : Nat)
  | unlink (tid : Int) (c : Nat)
  | readStatus (tid : Int) (c : Nat)
  | upDestroy (tid : Int) (c : Nat) (status : Int)
  | returned (r : Result)
  | start (params : Params)
  | load (params : Params)
  | loaded (success : Bool)
  | started (success : Bool)
  | exiting (how : Leaving)
  | dying (how : Leaving)
  | exited (how : Leaving)
  | fault (work : Option Work) (d : Nat)
  | panic
  deriving DecidableEq, Repr

def Starter.work : Starter → Work
  | .runTask => .runTask
  | .exec => .exec

def Finder.work (tid : Int) : Finder → Work
  | .exec => .exec
  | .wait => .wait tid

def Loc.work : Loc → Option Work
  | .execute u _ | .create u _ | .link u _ _ => some u.work
  | .find f tid _ | .down f tid _ | .blocked f tid _ => some (f.work tid)
  | .testLoaded _ _ => some .exec
  | .unlink tid _ | .readStatus tid _ | .upDestroy tid _ _ => some (.wait tid)
  | .fault work _ => work
  | .unused | .running | .returned _ | .start _ | .load _ | .loaded _ | .started _ | .exiting _
  | .dying _ | .exited _ | .panic => none

def Loc.child : Loc → Option Nat
  | .down _ _ c | .blocked _ _ c | .testLoaded _ c | .unlink _ c | .readStatus _ c
  | .upDestroy _ c _ => some c
  | _ => none

/-- Threads are numbered in the order of their pages: 0 is the initial thread and 1 the idle thread.
A freed struct keeps its last contents here, and every use of it is a fault. `loaded` is what `load`
returned in each thread. -/
structure State where
  thread : Nat → Thread
  freed : Nat → Bool
  loc : Nat → Loc
  created : Nat
  nextTid : Int
  loaded : Nat → Option Bool

@[simps -fullyApplied]
def State.setLoc (s : State) (p : Nat) (l : Loc) : State :=
  { s with loc := update s.loc p l }

@[simps -fullyApplied freed loc created nextTid loaded]
def State.edit (s : State) (c : Nat) (f : Thread → Thread) : State :=
  { s with thread := update s.thread c (f (s.thread c)) }

@[simps -fullyApplied]
def State.free (s : State) (c : Nat) : State :=
  { s with freed := update s.freed c true }

def State.childList (s : State) (p : Nat) : List Nat :=
  (s.thread p).childList

def State.tid (s : State) (p : Nat) : Int :=
  (s.thread p).tid

def State.touch (s : State) (p : Nat) (ds : List Nat) (t : State) : State :=
  match ds.find? s.freed with
  | some d => s.setLoc p (.fault (s.loc p).work d)
  | none => t

def Loc.wake : Loc → Loc
  | .blocked f tid c => .down f tid c
  | l => l

def State.wake (s : State) : Option Nat → State
  | some w => s.setLoc w (s.loc w).wake
  | none => s

def Finder.sema : Finder → Thread → Semaphore Nat
  | .exec => Thread.loadSema
  | .wait => Thread.waitSema

def Finder.setSema (x : Semaphore Nat) (t : Thread) : Finder → Thread
  | .exec => { t with loadSema := x }
  | .wait => { t with waitSema := x }

def Finder.passed (tid : Int) (c : Nat) : Finder → Loc
  | .exec => .testLoaded tid c
  | .wait => .unlink tid c

def Starter.resume (tid : Int) (childList : List Nat) : Starter → Loc
  | .runTask => .find .wait tid childList
  | .exec =>
    if tid = tidError then .returned (.exec none tidError) else .find .exec tid childList

def State.executed (s : State) (p : Nat) (u : Starter) (tid : Int) : State :=
  s.setLoc p (u.resume tid (s.childList p))

def threadCreate (s : State) (p : Nat) (u : Starter) (params : Params) (ok : Bool) : State :=
  if ok then
    { s.setLoc p (.link u s.created params) with
      thread := update s.thread s.created (initThread s.nextTid)
      created := s.created + 1
      nextTid := s.nextTid + 1 }
  else s.executed p u tidError

/-- The rest of `thread_create`, with `palloc`'s answer for the descriptor table. The last element of
the list is written when the new one is put behind it. -/
def threadLink (s : State) (p : Nat) (u : Starter) (c : Nat) (params : Params) (ok : Bool) : State :=
  if ok then
    s.touch p (s.childList p).getLast?.toList
      (((s.edit p fun t => { t with childList := t.childList ++ [c] }).setLoc c (.start params)).executed
        p u (s.tid c))
  else (s.free c).executed p u tidError

def threadGetChild (s : State) (p : Nat) (f : Finder) (tid : Int) : List Nat → State
  | [] =>
    match f with
    | .exec => s.setLoc p .panic
    | .wait => s.setLoc p (.returned (.wait tid none (-1)))
  | c :: rest =>
    s.touch p [c] (s.setLoc p (if s.tid c = tid then .down f tid c else .find f tid rest))

def downOn (s : State) (p : Nat) (f : Finder) (tid : Int) (c : Nat) : State :=
  let r := semaDown (f.sema (s.thread c)) p
  s.touch p [c]
    ((s.edit c fun t => f.setSema r.2 t).setLoc p (if r.1 then f.passed tid c else .blocked f tid c))

def around (c : Nat) : List Nat → List Nat
  | a :: b :: l =>
    if a = c then [b] else if b = c then a :: l.head?.toList else around c (b :: l)
  | _ => []

def upDestroy (s : State) (p : Nat) (tid : Int) (c : Nat) (status : Int) : State :=
  let r := semaUp (s.thread c).destroySema
  s.touch p [c]
    (((s.edit c fun t => { t with destroySema := r.2 }).wake r.1).setLoc p
      (.returned (.wait tid (some c) status)))

def upLoad (s : State) (p : Nat) (success : Bool) : State :=
  let r := semaUp (s.thread p).loadSema
  ((s.edit p fun t => { t with loadSema := r.2 }).wake r.1).setLoc p (.started success)

def State.loadReturns (s : State) (p : Nat) (success : Bool) : State :=
  { s.setLoc p (.loaded success) with loaded := update s.loaded p (some success) }

def go (s : State) (p : Nat) (ok : Bool) : Option State :=
  match s.loc p with
  | .execute u cmdline =>
    some (if ok then s.setLoc p (.create u (prepare cmdline)) else s.executed p u tidError)
  | .create u params =>
    if s.nextTid < 2 ^ 31 - 1 then some (threadCreate s p u params ok) else none
  | .link u c params => some (threadLink s p u c params ok)
  | .find f tid rest => some (threadGetChild s p f tid rest)
  | .down f tid c => some (downOn s p f tid c)
  | .testLoaded tid c =>
    some (s.touch p [c] (s.setLoc p (.returned (.exec (some c)
      (if (s.thread c).loadSucceeded then tid else tidError)))))
  | .unlink tid c =>
    some (s.touch p (c :: around c (s.childList p))
      ((s.edit p fun t => { t with childList := t.childList.erase c }).setLoc p (.readStatus tid c)))
  | .readStatus tid c =>
    some (s.touch p [c] (s.setLoc p (.upDestroy tid c (s.thread c).exitStatus)))
  | .upDestroy tid c status => some (upDestroy s p tid c status)
  | .returned _ => some (s.setLoc p .running)
  | .start params =>
    some (if ok then (s.edit p fun t => { t with pagedir := true }).setLoc p (.load params)
      else s.loadReturns p false)
  | .load _ => some (s.loadReturns p ok)
  | .loaded success => some (upLoad s p success)
  | .started success => some (s.setLoc p (if success then .running else .exiting .loadFailed))
  | .exiting how => some ((s.edit p fun t => { t with pagedir := false }).setLoc p (.dying how))
  | .dying how => some ((if p = 0 then s else s.free p).setLoc p (.exited how))
  | .unused | .running | .blocked _ _ _ | .exited _ | .fault _ _ | .panic => none

/-- What a running thread may ask for: `runTask` and `finish` in `main`, the rest in user programs. A
failed pointer check is `exit (-1)`, and `kill` is a user exception. -/
inductive Request
  | runTask (cmdline : List UInt8)
  | finish
  | exec (cmdline : List UInt8)
  | wait (tid : Int)
  | exit (status : Int)
  | kill
  deriving DecidableEq, Repr

def Request.isKernel : Request → Bool
  | .runTask _ | .finish => true
  | .exec _ | .wait _ | .exit _ | .kill => false

def call (s : State) (p : Nat) (r : Request) : Option State :=
  if s.loc p = .running ∧ (r.isKernel ↔ p = 0) then
    some <| match r with
      | .runTask cmdline => s.setLoc p (.execute .runTask cmdline)
      | .finish => s.setLoc p (.exiting .finished)
      | .exec cmdline => s.setLoc p (.execute .exec cmdline)
      | .wait tid => s.setLoc p (.find .wait tid (s.childList p))
      | .exit status =>
        (s.edit p fun t => { t with exitStatus := status }).setLoc p (.exiting (.exit status))
      | .kill => s.setLoc p (.exiting .killed)
  else none

inductive Event
  | call (p : Nat) (r : Request)
  | go (p : Nat) (ok : Bool)
  deriving DecidableEq, Repr

def next (s : State) : Event → Option State
  | .call p r => call s p r
  | .go p ok => go s p ok

def boot : State where
  thread p := if p = 0 then { initThread 1 with childList := [1] } else initThread 2
  freed _ := false
  loc p := if p = 0 then .running else .unused
  created := 2
  nextTid := 3
  loaded _ := none

def system : System State Event where
  init s := s = boot
  next := next

end Pintos.Userprog
