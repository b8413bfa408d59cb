import Pintos.Lib.Lists

/-! Hash tables with chaining in lists. -/

namespace Pintos.Lib

open Pintos.Foundation

structure Hash (P : Type) where
  elemCnt : Nat
  bucketCnt : Nat
  buckets : Nat → Header P
  hash : P → Nat
  less : P → P → Bool

variable {P : Type}

def findBucket (h : Hash P) (e : P) : Header P := h.buckets (h.hash e &&& (h.bucketCnt - 1))

def turnOffLeast1bit (x : Nat) : Nat := x &&& (x - 1)

def isPowerOf2 (x : Nat) : Bool := x ≠ 0 ∧ turnOffLeast1bit x = 0

def powerLoop : Nat → Nat → Nat
  | 0, n => n
  | fuel + 1, n => if isPowerOf2 n then n else powerLoop fuel (turnOffLeast1bit n)

def bestElemsPerBucket : Nat := 2

def newBucketCnt (elemCnt : Nat) : Nat :=
  let n := elemCnt / bestElemsPerBucket
  let n := if n < 4 then 4 else n
  powerLoop n n

section Operations

variable [DecidableEq P]

def initLoop (buckets : Nat → Header P) : Nat → Nat → ListM P Unit
  | 0, _ => return
  | n + 1, i => do
    listInit (buckets i)
    initLoop buckets n (i + 1)

def popLoop (bucket : Header P) : Nat → ListM P (List P)
  | 0 => throw .unfinished
  | fuel + 1 => do
    if ← listEmpty bucket then return []
    else
      let e ← listPopFront bucket
      return e :: (← popLoop bucket fuel)

def destroyElems (h : Hash P) (destructor : Bool) (bucket : Header P) : ListM P (List P) :=
  if destructor then popLoop bucket (h.elemCnt + 1) else pure []

def clearLoop (h : Hash P) (destructor : Bool) : Nat → Nat → ListM P (List P)
  | 0, _ => return []
  | n + 1, i => do
    let popped ← destroyElems h destructor (h.buckets i)
    listInit (h.buckets i)
    return popped ++ (← clearLoop h destructor n (i + 1))

/-- Returns the elements that the destructor is called for, if there is one. -/
def hashClear (h : Hash P) (destructor : Bool) : ListM P (List P × Hash P) := do
  let popped ← clearLoop h destructor h.bucketCnt 0
  return (popped, { h with elemCnt := 0 })

/-- The buckets are what `malloc` returns for them. -/
def hashInit (hash : P → Nat) (less : P → P → Bool) (buckets : Option (Nat → Header P)) :
    ListM P (Option (Hash P)) := do
  match buckets with
  | some buckets =>
    let (_, h) ← hashClear { elemCnt := 0, bucketCnt := 4, buckets, hash, less } false
    return some h
  | none => return none

def findLoop (less : P → P → Bool) (bucket : Header P) (e : P) : Nat → P → ListM P (Option P)
  | 0, _ => throw .unfinished
  | fuel + 1, i => do
    if i = bucket.tail then return none
    else if !less i e && !less e i then return some i
    else findLoop less bucket e fuel (← listNext i)

def findElem (h : Hash P) (bucket : Header P) (e : P) : ListM P (Option P) := do
  findLoop h.less bucket e (h.elemCnt + 1) (← listBegin bucket)

def insertElem (h : Hash P) (bucket : Header P) (e : P) : ListM P (Hash P) := do
  listPushFront bucket e
  return { h with elemCnt := h.elemCnt + 1 }

def removeElem (h : Hash P) (e : P) : ListM P (Hash P) := do
  let _ ← listRemove e
  return { h with elemCnt := h.elemCnt - 1 }

def moveLoop (h : Hash P) (oldBucket : Header P) : Nat → P → ListM P Unit
  | 0, _ => throw .unfinished
  | fuel + 1, elem => do
    if elem = oldBucket.tail then return
    else
      let newBucket := findBucket h elem
      let next ← listNext elem
      let _ ← listRemove elem
      listPushFront newBucket elem
      moveLoop h oldBucket fuel next

def moveAll (h : Hash P) (oldBuckets : Nat → Header P) : Nat → Nat → ListM P Unit
  | 0, _ => return
  | n + 1, i => do
    moveLoop h (oldBuckets i) (h.elemCnt + 1) (← listBegin (oldBuckets i))
    moveAll h oldBuckets n (i + 1)

/-- `answer` is what `malloc` returns if it is asked for buckets. -/
def rehash (h : Hash P) (answer : Option (Nat → Header P)) : ListM P (Hash P) := do
  let newCnt := newBucketCnt h.elemCnt
  if newCnt = h.bucketCnt then return h
  else
    match answer with
    | none => return h
    | some newBuckets =>
      initLoop newBuckets newCnt 0
      let h' := { h with buckets := newBuckets, bucketCnt := newCnt }
      moveAll h' h.buckets h.bucketCnt 0
      return h'

def hashInsert (h : Hash P) (new : P) (answer : Option (Nat → Header P)) : ListM P (Option P × Hash P) := do
  let bucket := findBucket h new
  let old ← findElem h bucket new
  let h ← if old.isNone then insertElem h bucket new else pure h
  return (old, ← rehash h answer)

def hashReplace (h : Hash P) (new : P) (answer : Option (Nat → Header P)) : ListM P (Option P × Hash P) := do
  let bucket := findBucket h new
  let old ← findElem h bucket new
  let h ← match old with
    | some old => removeElem h old
    | none => pure h
  let h ← insertElem h bucket new
  return (old, ← rehash h answer)

def hashFind (h : Hash P) (e : P) : ListM P (Option P) := findElem h (findBucket h e) e

def hashDelete (h : Hash P) (e : P) (answer : Option (Nat → Header P)) : ListM P (Option P × Hash P) := do
  match ← findElem h (findBucket h e) e with
  | some found =>
    let h ← removeElem h found
    return (some found, ← rehash h answer)
  | none => return (none, h)

def applyLoop (bucket : Header P) : Nat → P → ListM P (List P)
  | 0, _ => throw .unfinished
  | fuel + 1, elem => do
    if elem = bucket.tail then return []
    else
      let next ← listNext elem
      return elem :: (← applyLoop bucket fuel next)

def applyAll (h : Hash P) : Nat → Nat → ListM P (List P)
  | 0, _ => return []
  | n + 1, i => do
    let calls ← applyLoop (h.buckets i) (h.elemCnt + 1) (← listBegin (h.buckets i))
    return calls ++ (← applyAll h n (i + 1))

def hashApply (h : Hash P) : ListM P (List P) := applyAll h h.bucketCnt 0

end Operations

/-- The bucket is given by its index; no element stands for a null pointer. -/
structure HashIterator (P : Type) where
  bucket : Nat
  elem : Option P

def hashFirst (h : Hash P) : HashIterator P where
  bucket := 0
  elem := some (h.buckets 0).head

def nextLoop [DecidableEq P] (h : Hash P) : Nat → Nat → P → ListM P (HashIterator P)
  | 0, _, _ => throw .unfinished
  | fuel + 1, bucket, elem => do
    if elem = (h.buckets bucket).tail then
      if h.bucketCnt ≤ bucket + 1 then return { bucket := bucket + 1, elem := none }
      else nextLoop h fuel (bucket + 1) (← listBegin (h.buckets (bucket + 1)))
    else return { bucket, elem := some elem }

def hashNext [DecidableEq P] (h : Hash P) (i : HashIterator P) : ListM P (HashIterator P) := do
  let elem ← listNext (← deref i.elem)
  nextLoop h h.bucketCnt i.bucket elem

def hashCur (i : HashIterator P) : Option P := i.elem

def hashSize (h : Hash P) : Nat := h.elemCnt

def hashEmpty (h : Hash P) : Bool := h.elemCnt = 0

end Pintos.Lib
