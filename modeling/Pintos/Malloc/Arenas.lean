import Pintos.Foundation.Ranges
import Pintos.Kernel.Strings

/-! The block allocator: descriptors with free lists, and arenas whose headers are in memory. -/

namespace Pintos.Malloc

open Pintos.Foundation Pintos.Kernel

structure Desc where
  blockSize : Nat
  blocksPerArena : Nat
  freeList : List Nat
  deriving DecidableEq, Repr

structure PageGroup where
  addr : Nat
  cnt : Nat
  deriving DecidableEq, Repr

structure Heap where
  descs : List Desc
  groups : List PageGroup
  mem : Memory

structure Arena where
  magic : Nat
  desc : Nat
  freeCnt : Nat
  deriving DecidableEq, Repr

def arenaMagic : Nat := 0x9a548eed

def arenaSize : Nat := 12

def arenaAt (m : Memory) (a : Nat) : Arena := ⟨m.load a, m.load (a + 4), m.load (a + 8)⟩

def putArena (m : Memory) (a : Nat) (r : Arena) : Memory :=
  ((m.store a r.magic).store (a + 4) r.desc).store (a + 8) r.freeCnt

/-- The value that stands for the address of `descs[i]`; the null pointer is 0. -/
def descPtr (i : Nat) : Nat := i + 1

def initDescs : Nat → Nat → List Desc
  | 0, _ => []
  | n + 1, blockSize =>
    if blockSize < pgSize / 2 then
      ⟨blockSize, (pgSize - arenaSize) / blockSize, []⟩ :: initDescs n (blockSize * 2)
    else []

def mallocInit (m : Memory) : Heap := ⟨initDescs 10 16, [], m⟩

def PageGroup.range (g : PageGroup) : Range := ⟨g.addr, pgSize * g.cnt⟩

def Allowed (groups : List PageGroup) (g : PageGroup) : Prop :=
  0 < g.addr ∧ g.addr % pgSize = 0 ∧ g.addr + pgSize * g.cnt ≤ 4294967296 ∧
    ∀ g' ∈ groups, g.range.Apart g'.range

instance (groups : List PageGroup) (g : PageGroup) : Decidable (Allowed groups g) :=
  inferInstanceAs (Decidable (_ ∧ _))

/-- `palloc_get_multiple` when the environment proposes the group at `answer`. -/
def pallocGetMultiple (h : Heap) (answer pageCnt : Nat) : Nat × Heap :=
  if pageCnt ≠ 0 ∧ Allowed h.groups ⟨answer, pageCnt⟩ then
    (answer, { h with groups := ⟨answer, pageCnt⟩ :: h.groups })
  else (0, h)

def pallocFreeMultiple (h : Heap) (pages pageCnt : Nat) : Heap :=
  { h with
    groups := h.groups.erase ⟨pages, pageCnt⟩
    mem := memset h.mem pages 0xcc (wrap (pgSize * pageCnt)) }

def derefDesc (h : Heap) (desc : Nat) : Except Panic Desc :=
  match h.descs[desc - 1]? with
  | some d => .ok d
  | none => .error .wildPointer

def blockToArena (h : Heap) (b : Nat) : Except Panic Nat := do
  let a := pgRoundDown b
  assertThat (a ≠ 0) .blockToArenaNull
  assertThat ((arenaAt h.mem a).magic = arenaMagic) .blockToArenaMagic
  if (arenaAt h.mem a).desc = 0 then
    assertThat (pgOfs b = arenaSize) .blockToArenaBig
  else
    let d ← derefDesc h (arenaAt h.mem a).desc
    assertThat (wrap (pgOfs b + 4294967296 - arenaSize) % d.blockSize = 0) .blockToArenaAligned
  return a

def arenaToBlock (h : Heap) (a idx : Nat) : Except Panic Nat := do
  assertThat (a ≠ 0) .arenaToBlockNull
  assertThat ((arenaAt h.mem a).magic = arenaMagic) .arenaToBlockMagic
  let d ← derefDesc h (arenaAt h.mem a).desc
  assertThat (idx < d.blocksPerArena) .arenaToBlockIdx
  return wrap (a + arenaSize + idx * d.blockSize)

def setFreeList (h : Heap) (i : Nat) (freeList : List Nat) : Heap :=
  { h with descs := h.descs.modify i fun d => { d with freeList := freeList } }

def freeListOf (h : Heap) (i : Nat) : List Nat := (h.descs[i]?.map Desc.freeList).getD []

def setFreeCnt (h : Heap) (a freeCnt : Nat) : Heap := { h with mem := h.mem.store (a + 8) freeCnt }

def pushBlocks (i a : Nat) : Nat → Nat → Heap → Except Panic Heap
  | 0, _, h => return h
  | n + 1, idx, h => do
    let b ← arenaToBlock h a idx
    pushBlocks i a n (idx + 1) (setFreeList h i (freeListOf h i ++ [b]))

def removeBlocks (i a : Nat) : Nat → Nat → Heap → Except Panic Heap
  | 0, _, h => return h
  | n + 1, idx, h => do
    let b ← arenaToBlock h a idx
    removeBlocks i a n (idx + 1) (setFreeList h i ((freeListOf h i).erase b))

def newArena (h : Heap) (i answer : Nat) : Except Panic (Option Heap) := do
  let (a, h) := pallocGetMultiple h answer 1
  if a = 0 then return none
  else
    let d ← derefDesc h (descPtr i)
    let h := { h with mem := putArena h.mem a ⟨arenaMagic, descPtr i, d.blocksPerArena⟩ }
    return some (← pushBlocks i a d.blocksPerArena 0 h)

def popBlock (h : Heap) (i : Nat) : Except Panic (Nat × Heap) :=
  match freeListOf h i with
  | [] => .error (.assertion .listFrontEmpty)
  | b :: rest => do
    let h := setFreeList h i rest
    let a ← blockToArena h b
    return (b, setFreeCnt h a (wrap ((arenaAt h.mem a).freeCnt + 4294967295)))

def mallocBig (h : Heap) (size answer : Nat) : Nat × Heap :=
  let pageCnt := divRoundUp (wrap (size + arenaSize)) pgSize
  let (a, h) := pallocGetMultiple h answer pageCnt
  if a = 0 then (0, h)
  else (wrap (a + arenaSize), { h with mem := putArena h.mem a ⟨arenaMagic, 0, pageCnt⟩ })

def malloc (h : Heap) (size answer : Nat) : Except Panic (Nat × Heap) :=
  if size = 0 then .ok (0, h)
  else match h.descs.findIdx? fun d => size ≤ d.blockSize with
    | none => .ok (mallocBig h size answer)
    | some i =>
      if freeListOf h i = [] then do
        match ← newArena h i answer with
        | none => return (0, h)
        | some h => popBlock h i
      else popBlock h i

def calloc (h : Heap) (a b answer : Nat) : Except Panic (Nat × Heap) := do
  let size := wrap (a * b)
  if size < a ∨ size < b then return (0, h)
  else
    let (p, h) ← malloc h size answer
    if p ≠ 0 then return (p, { h with mem := memset h.mem p 0 size })
    else return (p, h)

def blockSize (h : Heap) (block : Nat) : Except Panic Nat := do
  let a ← blockToArena h block
  let r := arenaAt h.mem a
  if r.desc ≠ 0 then return (← derefDesc h r.desc).blockSize
  else return wrap (wrap (pgSize * r.freeCnt) + 4294967296 - pgOfs block)

def free (h : Heap) (p : Nat) : Except Panic Heap :=
  if p = 0 then .ok h
  else do
    let a ← blockToArena h p
    let r := arenaAt h.mem a
    if r.desc ≠ 0 then
      let i := r.desc - 1
      let d ← derefDesc h r.desc
      let h := { h with mem := memset h.mem p 0xcc d.blockSize }
      let h := setFreeList h i (p :: freeListOf h i)
      let freeCnt := wrap ((arenaAt h.mem a).freeCnt + 1)
      let h := setFreeCnt h a freeCnt
      if d.blocksPerArena ≤ freeCnt then
        assertThat (freeCnt = d.blocksPerArena) .freeFreeCnt
        return pallocFreeMultiple (← removeBlocks i a d.blocksPerArena 0 h) a 1
      else return h
    else return pallocFreeMultiple h a r.freeCnt

def realloc (h : Heap) (oldBlock newSize answer : Nat) : Except Panic (Nat × Heap) :=
  if newSize = 0 then do return (0, ← free h oldBlock)
  else do
    let (newBlock, h) ← malloc h newSize answer
    if oldBlock ≠ 0 ∧ newBlock ≠ 0 then
      let oldSize ← blockSize h oldBlock
      let minSize := if newSize < oldSize then newSize else oldSize
      let h := { h with mem := memcpy h.mem newBlock oldBlock minSize }
      return (newBlock, ← free h oldBlock)
    else return (newBlock, h)

end Pintos.Malloc
