import Pintos.Palloc.Runs
import Pintos.Threads.Scheduler

/-! The pages and lists that `thread_create` changes, and its failure paths. -/

namespace Pintos.Threads.NewThreads

open Pintos.Foundation Pintos.Kernel Pintos.Palloc Function

structure Thread where
  tid : Int
  status : Status
  name : List (BitVec 8)
  priority : Int
  childList : List Nat
  nextFd : Nat
  fdTable : Nat

/-- A thread is known by the address of its page. -/
structure Kernel where
  palloc : Palloc.State
  thread : Nat → Thread
  allList : List Nat
  readyList : List Nat
  current : Nat
  nextTid : Nat

def priMin : Int := 0

def priMax : Int := 63

def tidError : Int := -1

def palZero : Flags := ⟨false, true, false⟩

def Kernel.setThread (k : Kernel) (t : Nat) (r : Thread) : Kernel :=
  { k with thread := update k.thread t r }

def initThread (k : Kernel) (t : Nat) (name : List (BitVec 8)) (priority : Int) :
    Except Panic Kernel := do
  assertThat (t ≠ 0) .initThreadThread
  assertThat (priMin ≤ priority ∧ priority ≤ priMax) .initThreadPriority
  let k := k.setThread t ⟨0, .blocked, name.take 15, priority, [], 0, 0⟩
  return { k with allList := k.allList ++ [t] }

def threadUnblock (k : Kernel) (t : Nat) : Except Panic Kernel := do
  assertThat ((k.thread t).status = .blocked) .threadUnblockStatus
  let k := { k with readyList := k.readyList ++ [t] }
  return k.setThread t { k.thread t with status := .ready }

def allocateTid (k : Kernel) : Nat × Kernel := (k.nextTid, { k with nextTid := k.nextTid + 1 })

def threadCreate (k : Kernel) (name : List (BitVec 8)) (priority : Int) :
    Except Panic (Int × Kernel) := do
  let (t, palloc) ← pallocGetMultiple k.palloc palZero 1
  let k := { k with palloc := palloc }
  if t = 0 then return (tidError, k)
  else
    let k ← initThread k t name priority
    let (tid, k) := allocateTid k
    let k := k.setThread t { k.thread t with tid := tid }
    let (fdTable, palloc) ← pallocGetMultiple k.palloc palZero 2
    let k := { k with palloc := palloc }
    if fdTable = 0 then
      let palloc ← pallocFreeMultiple k.palloc t 1
      return (tidError, { k with palloc := palloc })
    else
      -- the pointer is moved down so that the first slot is that of descriptor 2
      let k := k.setThread t
        { k.thread t with nextFd := 2, fdTable := wrap (fdTable + 4294967296 - 4 * 2) }
      let parent := k.thread k.current
      let k := k.setThread k.current { parent with childList := parent.childList ++ [t] }
      let k ← threadUnblock k t
      return (tid, k)

structure Unchanged (k k' : Kernel) : Prop where
  allList : k'.allList = k.allList
  readyList : k'.readyList = k.readyList
  childList : (k'.thread k.current).childList = (k.thread k.current).childList
  pools : k'.palloc.pool = k.palloc.pool

lemma initThread_ok {k k' : Kernel} {t : Nat} {name : List (BitVec 8)} {priority : Int}
    (h : initThread k t name priority = .ok k') :
    k'.allList = k.allList ++ [t] ∧ k'.palloc = k.palloc ∧ k'.nextTid = k.nextTid := by
  rw [initThread, bind_eq_ok] at h
  obtain ⟨-, -, h⟩ := h
  rw [bind_eq_ok] at h
  obtain ⟨-, -, h⟩ := h
  rw [pure_eq_ok, Except.ok.injEq] at h
  subst h
  exact ⟨rfl, rfl, rfl⟩

lemma threadCreate_first {k k' : Kernel} {name : List (BitVec 8)} {priority tid : Int}
    (h : threadCreate k name priority = .ok (tid, k')) :
    ∃ t p, pallocGetMultiple k.palloc palZero 1 = .ok (t, p) ∧
      (t = 0 → tid = tidError ∧ k' = { k with palloc := p }) ∧
      (t ≠ 0 → tid = tidError → k'.allList = k.allList ++ [t]) := by
  rw [threadCreate, bind_eq_ok] at h
  obtain ⟨⟨t, p⟩, hget, h⟩ := h
  refine ⟨t, p, hget, fun ht => ?_, fun ht htid => ?_⟩
  · dsimp only at h
    rw [if_pos ht, pure_eq_ok, Except.ok.injEq, Prod.mk.injEq] at h
    exact ⟨h.1.symm, h.2.symm⟩
  · dsimp only at h
    rw [if_neg ht, bind_eq_ok] at h
    obtain ⟨k₁, hinit, h⟩ := h
    obtain ⟨hall, -, -⟩ := initThread_ok hinit
    rw [bind_eq_ok] at h
    obtain ⟨⟨fdTable, p'⟩, -, h⟩ := h
    dsimp only at h
    by_cases hfd : fdTable = 0
    · rw [if_pos hfd, bind_eq_ok] at h
      obtain ⟨p'', -, h⟩ := h
      rw [pure_eq_ok, Except.ok.injEq, Prod.mk.injEq] at h
      rw [← h.2]
      exact hall
    · -- a thread that was made has a number
      rw [if_neg hfd, bind_eq_ok] at h
      obtain ⟨k₂, -, h⟩ := h
      rw [pure_eq_ok, Except.ok.injEq, Prod.mk.injEq] at h
      have hneg : ((allocateTid k₁).1 : Int) = -1 := h.1.trans htid
      omega

lemma full_iff (b : Bitmap) : (∀ i, ¬ b.Fits false 1 i) ↔ ∀ i < b.bitCnt, b.bit i = true := by
  refine ⟨fun h i hi => ?_, fun h i hf => ?_⟩
  · by_contra hbit
    refine h i ⟨hi, fun j hj => ?_⟩
    obtain rfl : j = 0 := by omega
    simpa using hbit
  · have hfalse := hf.2 0 Nat.zero_lt_one
    have htrue := h i hf.1
    rw [Nat.add_zero, htrue] at hfalse
    exact Bool.noConfusion hfalse

theorem failed_thread_create_unchanged_iff {x : Machine} (hr : Palloc.system.Reachable x)
    {k k' : Kernel} (hk : k.palloc = x.kernel) {name : List (BitVec 8)} {priority : Int}
    (h : threadCreate k name priority = .ok (tidError, k')) :
    Unchanged k k' ↔ ∀ i < (k.palloc.pool .kernelPool).usedMap.bitCnt,
      (k.palloc.pool .kernelPool).usedMap.bit i = true := by
  have hl : PoolLayout (k.palloc.pool (selectPool palZero)) :=
    hk ▸ (inv_reachable hr).layout.pool _
  obtain ⟨t, p, hget, hnull, hfail⟩ := threadCreate_first h
  have hc : CursorLegal k.palloc palZero := by
    by_contra hc
    simp [get_panics Nat.zero_lt_one hc] at hget
  rw [← full_iff]
  rcases get_cases Nat.zero_lt_one hl hc with
    ⟨idx, c, p', hf, -, -, -, he⟩ | ⟨hnone, ⟨-, p', hu, -, he⟩ | ⟨ha, -⟩⟩
  · rw [hget, Except.ok.injEq, Prod.mk.injEq] at he
    have hall := hfail (he.1 ▸ pageAddr_ne_zero hl idx) rfl
    refine ⟨fun hsame => ?_, fun hfull => (hfull idx hf).elim⟩
    simp [hsame.allList] at hall
  · rw [hget, Except.ok.injEq, Prod.mk.injEq] at he
    obtain ⟨-, rfl⟩ := hnull he.1
    refine ⟨fun _ => hnone, fun _ => ⟨rfl, rfl, rfl, ?_⟩⟩
    rw [he.2, hu.pool]
    exact update_eq_self _ _
  · simp [palZero] at ha

def freshThread : Thread := ⟨1, .running, [], 31, [], 2, 0⟩

def mainOnly (p : Palloc.State) : Kernel := ⟨p, fun _ => freshThread, [0xc000e000], [], 0xc000e000, 2⟩

def created (p : Palloc.State) (q : Int → Kernel → Bool) : Bool :=
  match threadCreate (mainOnly p) [97] 31 with
  | .ok (tid, k) => q tid k
  | .error _ => false

lemma exists_of_created {p : Palloc.State} {q : Int → Kernel → Bool} (h : created p q = true) :
    ∃ tid k, threadCreate (mainOnly p) [97] 31 = .ok (tid, k) ∧ q tid k = true := by
  rw [created] at h
  split at h
  · next tid k he => exact ⟨tid, k, he, h⟩
  · simp at h

theorem failed_thread_create_unchanged_when_full :
    ∃ x k', Palloc.system.Reachable x ∧
      threadCreate (mainOnly x.kernel) [97] 31 = .ok (tidError, k') ∧
      (Unchanged (mainOnly x.kernel) k' ↔
        ∀ i < (x.kernel.pool .kernelPool).usedMap.bitCnt,
          (x.kernel.pool .kernelPool).usedMap.bit i = true) := by
  obtain ⟨x, hr, hx⟩ := exists_of_bootRun
    (p := fun x => created x.kernel fun tid _ => tid == tidError)
    (show (bootRun .firstFit ⟨264, by decide, by decide⟩ [.get ⟨false, false, false⟩ 3]).map _ =
      some true by decide +kernel)
  obtain ⟨tid, k', he, htid⟩ := exists_of_created hx
  obtain rfl : tid = tidError := by simpa using htid
  exact ⟨x, k', hr, he, failed_thread_create_unchanged_iff hr rfl he⟩

theorem failed_thread_create_keeps_freed_thread :
    ∃ x k', Palloc.system.Reachable x ∧
      threadCreate (mainOnly x.kernel) [97] 31 = .ok (tidError, k') ∧
      k'.allList = [0xc000e000, 0xc0103000] ∧
      (k'.palloc.pool .kernelPool).pageAddr 2 = 0xc0103000 ∧
      (k'.palloc.pool .kernelPool).usedMap.bit 2 = false ∧ ¬ Unchanged (mainOnly x.kernel) k' := by
  obtain ⟨x, hr, hx⟩ := exists_of_bootRun
    (p := fun x => created x.kernel fun tid k => tid == tidError &&
      k.allList == [0xc000e000, 0xc0103000] &&
      (k.palloc.pool .kernelPool).pageAddr 2 == 0xc0103000 &&
      !(k.palloc.pool .kernelPool).usedMap.bit 2)
    (show (bootRun .firstFit ⟨264, by decide, by decide⟩ [.get ⟨false, false, false⟩ 2]).map _ =
      some true by decide +kernel)
  obtain ⟨tid, k', he, hq⟩ := exists_of_created hx
  simp only [Bool.and_eq_true, beq_iff_eq, Bool.not_eq_true'] at hq
  obtain ⟨⟨⟨rfl, hall⟩, haddr⟩, hbit⟩ := hq
  refine ⟨x, k', hr, he, hall, haddr, hbit, fun hsame => ?_⟩
  simpa [mainOnly, hall] using hsame.allList

end Pintos.Threads.NewThreads
