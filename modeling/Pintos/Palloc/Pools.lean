import Pintos.Kernel.Strings
import Pintos.Kernel.BitmapScan

/-! The page allocator: two pools, first fit and next fit. -/

namespace Pintos.Palloc

open Pintos.Foundation Pintos.Kernel

inductive Policy
  | firstFit
  | nextFit
  deriving DecidableEq, Repr

structure Flags where
  palAssert : Bool
  palZero : Bool
  palUser : Bool
  deriving DecidableEq, Repr

structure Pool where
  usedMap : Bitmap
  mapAddr : Nat
  base : Nat

structure State where
  policy : Policy
  pool : PoolName → Pool
  nextfitStart : Nat
  mem : Memory

def State.setMap (s : State) (name : PoolName) (usedMap : Bitmap) : State :=
  { s with pool := Function.update s.pool name { s.pool name with usedMap := usedMap } }

/-- What `start.S` stores in `init_ram_pages`, or any other amount of memory that reaches 1 MB and
ends below the top of the address space when it is mapped at `PHYS_BASE`. -/
structure RamPages where
  pages : Nat
  low : 256 ≤ pages
  high : pages < 262144

def initRamPages (ax : BitVec 16) : RamPages where
  pages := min (ax.toNat + 1024) 0x10000 / 4
  low := by omega
  high := by omega

def selectPool (flags : Flags) : PoolName :=
  if flags.palUser then .userPool else .kernelPool

def freePages (freeStart freeEnd : Nat) : Nat := wrap (freeEnd + 4294967296 - freeStart) / pgSize

lemma freePages_lt (freeStart freeEnd : Nat) : freePages freeStart freeEnd < 1048576 := by
  have := wrap_lt (freeEnd + 4294967296 - freeStart)
  simp only [freePages, pgSize]
  omega

def userPages (free userPageLimit : Nat) : Nat :=
  if free / 2 > userPageLimit then userPageLimit else free / 2

lemma userPages_le (free userPageLimit : Nat) : userPages free userPageLimit ≤ free / 2 := by
  simp only [userPages]
  split <;> omega

def bmPages (pageCnt : Nat) : Nat := divRoundUp (bitmapBufSize pageCnt) pgSize

def initPool (m : Memory) (base pageCnt : Nat) (h : pageCnt < 1048576) (name : PoolName) :
    Except Panic Pool := do
  if bmPages pageCnt > pageCnt then .error (.notEnoughMemory name)
  else
    let usedMap ← bitmapCreateInBuf m (pageCnt - bmPages pageCnt) base
      (wrap (bmPages pageCnt * pgSize)) (by omega)
    return { usedMap, mapAddr := base, base := wrap (base + wrap (bmPages pageCnt * pgSize)) }

def pallocInit (policy : Policy) (m : Memory) (nextfitStart : Nat) (ram : RamPages)
    (userPageLimit : Nat) : Except Panic State := do
  let freeStart ← ptov (1024 * 1024)
  let freeEnd ← ptov (wrap (ram.pages * pgSize))
  let free := freePages freeStart freeEnd
  have hfree : free < 1048576 := freePages_lt freeStart freeEnd
  have huser : userPages free userPageLimit ≤ free / 2 := userPages_le free userPageLimit
  let kernelPages := free - userPages free userPageLimit
  let kernel ← initPool m freeStart kernelPages (Nat.lt_of_le_of_lt (Nat.sub_le _ _) hfree) .kernelPool
  let user ← initPool m (wrap (freeStart + wrap (kernelPages * pgSize)))
    (userPages free userPageLimit) (Nat.lt_of_le_of_lt (huser.trans (Nat.div_le_self _ _)) hfree) .userPool
  return { policy
           pool := fun | .kernelPool => kernel | .userPool => user
           nextfitStart := match policy with | .firstFit => nextfitStart | .nextFit => 0
           mem := m }

def placePages (policy : Policy) (pool : Pool) (nextfitStart pageCnt : Nat) :
    Except Panic (Nat × Bitmap × Nat) :=
  match policy with
  | .firstFit => do
    let (pageIdx, usedMap) ← bitmapScanAndFlip pool.usedMap 0 pageCnt false
    return (pageIdx, usedMap, nextfitStart)
  | .nextFit => do
    let first ← bitmapScanAndFlip pool.usedMap nextfitStart pageCnt false
    let (pageIdx, usedMap) ←
      if first.1 = bitmapError then bitmapScanAndFlip first.2 0 pageCnt false else pure first
    return (pageIdx, usedMap, wrap (pool.base + wrap (pgSize * wrap (pageIdx + pageCnt))))

def pallocGetMultiple (s : State) (flags : Flags) (pageCnt : Nat) : Except Panic (Nat × State) :=
  if pageCnt = 0 then .ok (0, s)
  else do
    let name := selectPool flags
    let pool := s.pool name
    let (pageIdx, usedMap, nextfitStart) ← placePages s.policy pool s.nextfitStart pageCnt
    let s := { s.setMap name usedMap with nextfitStart := nextfitStart }
    let pages := if pageIdx ≠ bitmapError then wrap (pool.base + wrap (pgSize * pageIdx)) else 0
    if pages ≠ 0 then
      if flags.palZero then
        return (pages, { s with mem := memset s.mem pages 0 (wrap (pgSize * pageCnt)) })
      else return (pages, s)
    else if flags.palAssert then .error .outOfPages
    else return (0, s)

def pageFromPool (pool : Pool) (page : Nat) : Bool :=
  decide (pgNo pool.base ≤ pgNo page ∧ pgNo page < wrap (pgNo pool.base + pool.usedMap.bitCnt))

def owningPool (s : State) (pages : Nat) : Except Panic PoolName :=
  if pageFromPool (s.pool .kernelPool) pages then .ok .kernelPool
  else if pageFromPool (s.pool .userPool) pages then .ok .userPool
  else .error .notReached

def pallocFreeMultiple (s : State) (pages pageCnt : Nat) : Except Panic State := do
  assertThat (pgOfs pages = 0) .freeMultipleOfs
  if pages = 0 ∨ pageCnt = 0 then return s
  else
    let name ← owningPool s pages
    let pool := s.pool name
    let pageIdx := pgNo pages - pgNo pool.base
    let mem := memset s.mem pages 0xcc (wrap (pgSize * pageCnt))
    let inUse ← bitmapAll pool.usedMap pageIdx pageCnt
    assertThat (inUse = true) .freeMultipleInUse
    let usedMap ← bitmapSetMultiple pool.usedMap pageIdx pageCnt false
    return { s.setMap name usedMap with mem := mem }

end Pintos.Palloc
