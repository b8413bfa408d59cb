import Pintos.Foundation.Flags
import Pintos.Palloc.Pools
import Pintos.Userprog.Space

/-! Page directories and page tables. -/

namespace Pintos.Userprog.Pagedir

open Pintos.Foundation Pintos.Kernel Function

abbrev Word := BitVec 32

/-- `entries` holds the entries of the page directory or page table at an address; `allocated` the
pages that `palloc_get_page` has returned for them, the latest first. -/
structure Paging where
  entries : Nat → Nat → Word
  allocated : List Nat
  initPageDir : Nat
  initRamPages : Nat

def pteAddr : Word := 0xfffff000#32

def pteP : Word := 0x1#32

def pteW : Word := 0x2#32

def pteU : Word := 0x4#32

def pteA : Word := 0x20#32

def pteD : Word := 0x40#32

def ptNo (va : Nat) : Nat := va / pgSize % 1024

def vtop (vaddr : Nat) : Except Panic Nat := do
  assertThat (physBase ≤ vaddr) .vtopVaddr
  return vaddr - physBase

def pdeCreate (pt : Nat) : Except Panic Word := do
  assertThat (pgOfs pt = 0) .pdeCreateOfs
  return BitVec.ofNat 32 (← vtop pt) ||| pteU ||| pteP ||| pteW

def pdeGetPt (pde : Word) : Except Panic Nat := do
  assertThat (pde &&& pteP ≠ 0) .pdeGetPtPresent
  ptov (pde &&& pteAddr).toNat

def pteCreateKernel (page : Nat) (writable : Bool) : Except Panic Word := do
  assertThat (pgOfs page = 0) .pteCreateOfs
  return BitVec.ofNat 32 (← vtop page) ||| pteP ||| (if writable then pteW else 0)

def pteCreateUser (page : Nat) (writable : Bool) : Except Panic Word := do
  return (← pteCreateKernel page writable) ||| pteU

def pteGetPage (pte : Word) : Except Panic Nat := ptov (pte &&& pteAddr).toNat

structure Entry where
  table : Nat
  index : Nat
  deriving DecidableEq, Repr

def Paging.load (s : Paging) (e : Entry) : Word := s.entries e.table e.index

def Paging.store (s : Paging) (e : Entry) (w : Word) : Paging :=
  { s with entries := update s.entries e.table (update (s.entries e.table) e.index w) }

def Paging.fill (s : Paging) (page : Nat) (w : Nat → Word) : Paging :=
  { s with entries := update s.entries page w }

def Paging.grant (s : Paging) (page : Nat) : Paging := { s with allocated := page :: s.allocated }

def pagedirCreate (s : Paging) (page : Nat) : Nat × Paging :=
  if page ≠ 0 then (page, (s.grant page).fill page (s.entries s.initPageDir)) else (0, s)

/-- The answer of `palloc_get_page` is `page`, zero for a null pointer. -/
def lookupPage (s : Paging) (page pd vaddr : Nat) (create : Bool) : Except Panic (Option Entry × Paging) := do
  assertThat (pd ≠ 0) .lookupPagePd
  assertThat (create = false ∨ isUserVaddr vaddr = true) .lookupPageCreate
  let pde : Entry := ⟨pd, pdNo vaddr⟩
  if s.load pde = 0 then
    if create then
      if page = 0 then return (none, s)
      else
        let s := ((s.grant page).fill page fun _ => 0).store pde (← pdeCreate page)
        return (some ⟨← pdeGetPt (s.load pde), ptNo vaddr⟩, s)
    else return (none, s)
  else return (some ⟨← pdeGetPt (s.load pde), ptNo vaddr⟩, s)

def pagedirSetPage (s : Paging) (page pd upage kpage : Nat) (writable : Bool) : Except Panic (Bool × Paging) := do
  assertThat (pgOfs upage = 0) .pagedirSetPageUpage
  assertThat (pgOfs kpage = 0) .pagedirSetPageKpage
  assertThat (isUserVaddr upage = true) .pagedirSetPageVaddr
  assertThat ((← vtop kpage) / pgSize < s.initRamPages) .pagedirSetPageFrame
  assertThat (pd ≠ s.initPageDir) .pagedirSetPageInit
  let (pte, s) ← lookupPage s page pd upage true
  match pte with
  | some pte =>
    assertThat (s.load pte &&& pteP = 0) .pagedirSetPagePresent
    return (true, s.store pte (← pteCreateUser kpage writable))
  | none => return (false, s)

def pagedirGetPage (s : Paging) (pd uaddr : Nat) : Except Panic Nat := do
  assertThat (isUserVaddr uaddr = true) .pagedirGetPageVaddr
  let (pte, s) ← lookupPage s 0 pd uaddr false
  match pte with
  | some pte => if s.load pte &&& pteP ≠ 0 then return (← pteGetPage (s.load pte)) + pgOfs uaddr else return 0
  | none => return 0

def pagedirClearPage (s : Paging) (pd upage : Nat) : Except Panic Paging := do
  assertThat (pgOfs upage = 0) .pagedirClearPageUpage
  assertThat (isUserVaddr upage = true) .pagedirClearPageVaddr
  let (pte, s) ← lookupPage s 0 pd upage false
  match pte with
  | some pte => return if s.load pte &&& pteP ≠ 0 then s.store pte (s.load pte &&& ~~~pteP) else s
  | none => return s

def setFlag (flag : Word) (s : Paging) (pd vpage : Nat) (value : Bool) : Except Panic Paging := do
  let (pte, s) ← lookupPage s 0 pd vpage false
  match pte with
  | some pte => return s.store pte (if value then s.load pte ||| flag else s.load pte &&& ~~~flag)
  | none => return s

def pagedirSetDirty : Paging → Nat → Nat → Bool → Except Panic Paging := setFlag pteD

def pagedirSetAccessed : Paging → Nat → Nat → Bool → Except Panic Paging := setFlag pteA

structure Freeing where
  freed : List Nat
  paging : Paging

def Freeing.free (f : Freeing) (page : Nat) : Freeing where
  freed := f.freed ++ [page]
  paging := f.paging.fill page fun _ => 0xcccccccc#32

def freeEntry (pt : Nat) (f : Freeing) (pte : Nat) : Except Panic Freeing := do
  if f.paging.load ⟨pt, pte⟩ &&& pteP ≠ 0 then return f.free (← pteGetPage (f.paging.load ⟨pt, pte⟩)) else return f

def freeTable (pd : Nat) (f : Freeing) (pde : Nat) : Except Panic Freeing := do
  if f.paging.load ⟨pd, pde⟩ &&& pteP ≠ 0 then
    let pt ← pdeGetPt (f.paging.load ⟨pd, pde⟩)
    return (← (List.range 1024).foldlM (freeEntry pt) f).free pt
  else return f

def pagedirDestroy (s : Paging) (pd : Nat) : Except Panic Freeing := do
  if pd = 0 then return ⟨[], s⟩
  else
    assertThat (pd ≠ s.initPageDir) .pagedirDestroyInit
    return (← (List.range (pdNo physBase)).foldlM (freeTable pd) ⟨[], s⟩).free pd

structure Booting where
  paging : Paging
  pt : Nat
  pages : List Nat

def Booting.newTable (b : Booting) (pde : Entry) : Except Panic Booting :=
  match b.pages with
  | [] => .error .outOfPages
  | pt :: pages => do
    return { paging := ((b.paging.grant pt).fill pt fun _ => 0).store pde (← pdeCreate pt), pt, pages }

def Booting.tableFor (b : Booting) (pde : Entry) : Except Panic Booting :=
  if b.paging.load pde = 0 then b.newTable pde else .ok b

def mapKernelPage (start endKernelText : Nat) (b : Booting) (page : Nat) : Except Panic Booting := do
  let vaddr ← ptov (page * pgSize)
  let pde : Entry := ⟨b.paging.initPageDir, pdNo vaddr⟩
  let inKernelText := decide (start ≤ vaddr ∧ vaddr < endKernelText)
  let b ← b.tableFor pde
  return { b with paging := b.paging.store ⟨b.pt, ptNo vaddr⟩ (← pteCreateKernel vaddr !inKernelText) }

def pagingInit (entries : Nat → Nat → Word) (ram : Palloc.RamPages) (start endKernelText : Nat) (pages : List Nat) :
    Except Panic Paging :=
  match pages with
  | [] => .error .outOfPages
  | pd :: pages => do
    let s : Paging := { entries, allocated := [], initPageDir := pd, initRamPages := ram.pages }
    let b ← (List.range ram.pages).foldlM (mapKernelPage start endKernelText)
      ⟨(s.grant pd).fill pd fun _ => 0, 0, pages⟩
    return b.paging

end Pintos.Userprog.Pagedir
