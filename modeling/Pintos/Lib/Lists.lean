import Mathlib.Logic.Function.Basic
import Pintos.Foundation.Programs

/-! Doubly linked lists in a memory of list nodes. -/

namespace Pintos.Lib

open Pintos.Foundation Function

/-- The links of every node, `none` for a null pointer. -/
structure Links (P : Type) where
  prev : P → Option P
  next : P → Option P

/-- The two header elements of a list. -/
structure Header (P : Type) where
  head : P
  tail : P

inductive Check
  | next | prev | insertBefore | spliceBefore | spliceFirst | spliceLast | remove | front | back
  | runRange | mergeFirst | mergeSecond | sorted
  deriving DecidableEq, Repr

inductive Fault
  | assertion (c : Check)
  | nullPointer
  | unfinished
  deriving DecidableEq, Repr

abbrev ListM (P : Type) := EStateM Fault (Links P)

variable {P : Type}

def Links.isHead (m : Links P) (e : P) : Bool := (m.prev e).isNone && (m.next e).isSome

def Links.isInterior (m : Links P) (e : P) : Bool := (m.prev e).isSome && (m.next e).isSome

def Links.isTail (m : Links P) (e : P) : Bool := (m.prev e).isSome && (m.next e).isNone

def check (c : Check) (b : Bool) : ListM P Unit := if b then pure () else throw (.assertion c)

def deref : Option P → ListM P P
  | some p => return p
  | none => throw .nullPointer

def getPrev (e : P) : ListM P (Option P) := return (← get).prev e

def getNext (e : P) : ListM P (Option P) := return (← get).next e

def listBegin (l : Header P) : ListM P P := do deref (← getNext l.head)

def listNext (e : P) : ListM P P := do
  let m ← get
  check .next (m.isHead e || m.isInterior e)
  deref (m.next e)

def listPrev (e : P) : ListM P P := do
  let m ← get
  check .prev (m.isInterior e || m.isTail e)
  deref (m.prev e)

section Updates

variable [DecidableEq P]

def Links.setPrev (m : Links P) (e : P) (v : Option P) : Links P := { m with prev := update m.prev e v }

def Links.setNext (m : Links P) (e : P) (v : Option P) : Links P := { m with next := update m.next e v }

def putPrev (e : P) (v : Option P) : ListM P Unit := modify fun m => m.setPrev e v

def putNext (e : P) (v : Option P) : ListM P Unit := modify fun m => m.setNext e v

def listInit (l : Header P) : ListM P Unit := do
  putPrev l.head none
  putNext l.head (some l.tail)
  putPrev l.tail (some l.head)
  putNext l.tail none

def listInsert (before elem : P) : ListM P Unit := do
  let m ← get
  check .insertBefore (m.isInterior before || m.isTail before)
  putPrev elem (← getPrev before)
  putNext elem (some before)
  putNext (← deref (← getPrev before)) (some elem)
  putPrev before (some elem)

def listSplice (before first last : P) : ListM P Unit := do
  let m ← get
  check .spliceBefore (m.isInterior before || m.isTail before)
  if first = last then return
  else
    let last ← listPrev last
    check .spliceFirst (m.isInterior first)
    check .spliceLast (m.isInterior last)
    putNext (← deref (← getPrev first)) (← getNext last)
    putPrev (← deref (← getNext last)) (← getPrev first)
    putPrev first (← getPrev before)
    putNext last (some before)
    putNext (← deref (← getPrev before)) (some first)
    putPrev before (some last)

def listPushFront (l : Header P) (elem : P) : ListM P Unit := do listInsert (← listBegin l) elem

def listPushBack (l : Header P) (elem : P) : ListM P Unit := listInsert l.tail elem

def listRemove (elem : P) : ListM P P := do
  let m ← get
  check .remove (m.isInterior elem)
  putNext (← deref (← getPrev elem)) (← getNext elem)
  putPrev (← deref (← getNext elem)) (← getPrev elem)
  deref (← getNext elem)

def listEmpty (l : Header P) : ListM P Bool := return (← listBegin l) = l.tail

def listFront (l : Header P) : ListM P P := do
  check .front !(← listEmpty l)
  deref (← getNext l.head)

def listBack (l : Header P) : ListM P P := do
  check .back !(← listEmpty l)
  deref (← getPrev l.tail)

def listPopFront (l : Header P) : ListM P P := do
  let front ← listFront l
  let _ ← listRemove front
  return front

def listPopBack (l : Header P) : ListM P P := do
  let back ← listBack l
  let _ ← listRemove back
  return back

def reverseLoop (l : Header P) : Nat → P → ListM P Unit
  | 0, _ => throw .unfinished
  | fuel + 1, e => do
    if e = l.tail then return
    else
      let prev ← getPrev e
      putPrev e (← getNext e)
      putNext e prev
      reverseLoop l fuel (← deref (← getPrev e))

def listReverse (fuel : Nat) (l : Header P) : ListM P Unit := do
  if ← listEmpty l then return
  else
    reverseLoop l fuel (← listBegin l)
    let front ← getNext l.head
    putNext l.head (← getPrev l.tail)
    putPrev l.tail front
    let first ← deref (← getNext l.head)
    let last ← deref (← getPrev l.tail)
    let link ← getPrev first
    putPrev first (← getNext last)
    putNext last link

end Updates

section Sorting

variable [DecidableEq P] (less : P → P → Bool)

def sortedLoop : Nat → P → P → ListM P Bool
  | 0, _, _ => throw .unfinished
  | fuel + 1, a, b => do
    let a ← listNext a
    if a = b then return true
    else if less a (← listPrev a) then return false
    else sortedLoop fuel a b

def isSorted (fuel : Nat) (a b : P) : ListM P Bool :=
  if a = b then return true else sortedLoop less fuel a b

def runLoop : Nat → P → P → ListM P P
  | 0, _, _ => throw .unfinished
  | fuel + 1, a, b => do
    let a ← listNext a
    if a = b then return a
    else if less a (← listPrev a) then return a
    else runLoop fuel a b

def findEndOfRun (fuel : Nat) (a b : P) : ListM P P := do
  check .runRange (a ≠ b)
  runLoop less fuel a b

def mergeLoop : Nat → P → P → P → ListM P Unit
  | 0, _, _, _ => throw .unfinished
  | fuel + 1, a0, a1b0, b1 => do
    if a0 ≠ a1b0 ∧ a1b0 ≠ b1 then
      if !less a1b0 a0 then mergeLoop fuel (← listNext a0) a1b0 b1
      else
        let a1b0 ← listNext a1b0
        listSplice a0 (← listPrev a1b0) a1b0
        mergeLoop fuel a0 a1b0 b1
    else return

def inplaceMerge (fuel : Nat) (a0 a1b0 b1 : P) : ListM P Unit := do
  check .mergeFirst (← isSorted less fuel a0 a1b0)
  check .mergeSecond (← isSorted less fuel a1b0 b1)
  mergeLoop less fuel a0 a1b0 b1

def sortPass (l : Header P) (work : Nat) : Nat → P → Nat → ListM P Nat
  | 0, _, _ => throw .unfinished
  | fuel + 1, a0, outputRunCnt => do
    if a0 = l.tail then return outputRunCnt
    else
      let a1b0 ← findEndOfRun less work a0 l.tail
      if a1b0 = l.tail then return outputRunCnt + 1
      else
        let b1 ← findEndOfRun less work a1b0 l.tail
        inplaceMerge less work a0 a1b0 b1
        sortPass l work fuel b1 (outputRunCnt + 1)

def sortLoop (l : Header P) (work : Nat) : Nat → ListM P Unit
  | 0 => throw .unfinished
  | fuel + 1 => do
    let outputRunCnt ← sortPass less l work work (← listBegin l) 0
    if 1 < outputRunCnt then sortLoop l work fuel else return

def listSort (fuel : Nat) (l : Header P) : ListM P Unit := do
  sortLoop less l fuel fuel
  check .sorted (← isSorted less fuel (← listBegin l) l.tail)

def insertLoop (l : Header P) (elem : P) : Nat → P → ListM P P
  | 0, _ => throw .unfinished
  | fuel + 1, e => do
    if e = l.tail then return e
    else if less elem e then return e
    else insertLoop l elem fuel (← listNext e)

def listInsertOrdered (fuel : Nat) (l : Header P) (elem : P) : ListM P Unit := do
  listInsert (← insertLoop less l elem fuel (← listBegin l)) elem

def uniqueLoop (l : Header P) (duplicates : Option (Header P)) : Nat → P → ListM P Unit
  | 0, _ => throw .unfinished
  | fuel + 1, elem => do
    let next ← listNext elem
    if next = l.tail then return
    else if !less elem next && !less next elem then
      let _ ← listRemove next
      match duplicates with
      | some d => listPushBack d next
      | none => pure ()
      uniqueLoop l duplicates fuel elem
    else uniqueLoop l duplicates fuel next

def listUnique (fuel : Nat) (l : Header P) (duplicates : Option (Header P)) : ListM P Unit := do
  if ← listEmpty l then return
  else uniqueLoop less l duplicates fuel (← listBegin l)

def maxLoop (l : Header P) : Nat → P → P → ListM P P
  | 0, _, _ => throw .unfinished
  | fuel + 1, max, e => do
    if e = l.tail then return max
    else maxLoop l fuel (if less max e then e else max) (← listNext e)

def listMax (fuel : Nat) (l : Header P) : ListM P P := do
  let max ← listBegin l
  if max = l.tail then return max else maxLoop less l fuel max (← listNext max)

def listMin : Nat → Header P → ListM P P := listMax fun min e => less e min

end Sorting

end Pintos.Lib
