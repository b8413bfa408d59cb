import Pintos.Filesys.Directories
import Pintos.Foundation.Records
import Pintos.Userprog.Segments
import Pintos.Userprog.Stack

/-! `load`: from an executable file to the address space of a process. -/

namespace Pintos.Userprog

open Pintos.Foundation Pintos.Kernel Pintos.Filesys

structure Loading where
  user : User
  fs : Fs

abbrev LoadM := EStateM Panic Loading

def onUser {α : Type} (x : UserM α) : LoadM α := fun s =>
  match x s.user with
  | .ok a u => .ok a { s with user := u }
  | .error e u => .error e { s with user := u }

def onFs {α : Type} (x : Fs → Except Panic (α × Fs)) : LoadM α := fun s =>
  match x s.fs with
  | .ok (a, fs) => .ok a { s with fs }
  | .error e => .error e s

section Ends

variable {α : Type} {s : Loading} {Q : α → Loading → Prop} {E : Panic → Loading → Prop}

lemma ends_onUser (x : UserM α) :
    Ends (onUser x) s Q E ↔
      Ends x s.user (fun a u => Q a { s with user := u }) (fun e u => E e { s with user := u }) := by
  rw [Ends, Ends, onUser]
  cases x s.user <;> rfl

lemma ends_onFs {x : Fs → Except Panic (α × Fs)} {a : α} {t : Fs} (h : x s.fs = .ok (a, t)) :
    Ends (onFs x) s Q E ↔ Q a { s with fs := t } := by
  rw [Ends, onFs, h]

lemma ends_onFs_unit (x : Fs → Except Panic Fs) {Q : Unit → Loading → Prop} {t : Fs} (h : x s.fs = .ok t) :
    Ends (onFs fun fs => do return ((), ← x fs)) s Q E ↔ Q () { s with fs := t } :=
  ends_onFs (by rw [h]; rfl)

end Ends

structure Ehdr where
  ident : List Byte
  type : Nat
  machine : Nat
  version : Nat
  entry : Nat
  phoff : Nat
  phentsize : Nat
  phnum : Nat

def halfOf (bs : List Byte) : Nat := (bs.getD 0 0).toNat + 256 * (bs.getD 1 0).toNat

def ehdrSize : Nat := 52

def phdrSize : Nat := 32

def Ehdr.ofBytes (bs : List Byte) : Ehdr where
  ident := bs.take 7
  type := halfOf (bs.drop 16)
  machine := halfOf (bs.drop 18)
  version := wordOf (bs.drop 20)
  entry := wordOf (bs.drop 24)
  phoff := wordOf (bs.drop 28)
  phentsize := halfOf (bs.drop 42)
  phnum := halfOf (bs.drop 44)

def Ehdr.bad (ehdr : Ehdr) : Bool :=
  ehdr.ident ≠ [0x7f, 0x45, 0x4c, 0x46, 1, 1, 1] || ehdr.type ≠ 2 || ehdr.machine ≠ 3 ||
    ehdr.version ≠ 1 || ehdr.phentsize ≠ phdrSize || 1024 < ehdr.phnum

def ptLoad : Nat := 1

/-- `PT_DYNAMIC`, `PT_INTERP` and `PT_SHLIB`. -/
def Phdr.refused (phdr : Phdr) : Bool := phdr.type = 2 || phdr.type = 3 || phdr.type = 5

def pagedirCreate : UserM Bool := do
  let pd ← pallocGetPage
  if pd then modify fun u => { u with space := ⟨fun _ => false, fun _ => none, fun _ => 0⟩ }
  return pd

def loadPage (f : Nat) (writable : Bool) (p : PageLoad) : LoadM Bool := do
  let kpage ← onUser pallocGetPage
  if kpage then
    let bytes ← onFs (fileRead · f p.pageReadBytes)
    if bytes.length = p.pageReadBytes then
      onUser (installPage p.upage (bytes ++ List.replicate p.pageZeroBytes 0) writable)
    else return false
  else return false

def loadPages (f : Nat) (writable : Bool) : Nat → PageLoad → LoadM Bool
  -- by then every page of the address space is mapped
  | 0, _ => return false
  | fuel + 1, p => do
    if p.finished then return true
    else if ← loadPage f writable p then loadPages f writable fuel p.advance
    else return false

def loadSegment (f ofs upage readBytes zeroBytes : Nat) (writable : Bool) : LoadM Bool := do
  onUser (assertUser (wrap (readBytes + zeroBytes) % pgSize = 0) .loadSegmentBytes)
  onUser (assertUser (pgOfs upage = 0) .loadSegmentUpage)
  onUser (assertUser (toInt32 ofs % pgSize = 0) .loadSegmentOfs)
  onFs fun s => return ((), ← fileSeek s f (toInt32 ofs))
  loadPages f writable 1048577 ⟨upage, readBytes, zeroBytes⟩

def loadHeader (f : Nat) (phdr : Phdr) : LoadM Bool := do
  if phdr.refused then return false
  else if phdr.type = ptLoad then
    let length ← onFs fun s => return (← fileLength s f, s)
    if validateSegment phdr length then
      loadSegment f phdr.filePage phdr.memPage phdr.readBytes phdr.zeroBytes phdr.writable
    else return false
  else return true

def loadHeaders (f : Nat) : Nat → Nat → LoadM Bool
  | 0, _ => return true
  | n + 1, fileOfs => do
    let length ← onFs fun s => return (← fileLength s f, s)
    if toInt32 fileOfs < 0 ∨ length < toInt32 fileOfs then return false
    else
      onFs fun s => return ((), ← fileSeek s f (toInt32 fileOfs))
      let bytes ← onFs (fileRead · f phdrSize)
      if bytes.length ≠ phdrSize then return false
      else if ← loadHeader f (.ofBytes bytes) then loadHeaders f n (wrap (fileOfs + phdrSize))
      else return false

def loadFile (params : Params) (f : Nat) : LoadM (Option (Nat × Nat)) := do
  let bytes ← onFs (fileRead · f ehdrSize)
  let ehdr := Ehdr.ofBytes bytes
  if bytes.length ≠ ehdrSize ∨ ehdr.bad then return none
  else if ← loadHeaders f ehdr.phnum ehdr.phoff then
    match ← onUser (setupStack params) with
    | some esp => return some (ehdr.entry, esp)
    | none => return none
  else return none

def Params.fileName (params : Params) : Name :=
  ⟨cstring (params.cmdline.map UInt8.toBitVec), fun h => by simpa using List.mem_takeWhile_imp h⟩

def load (params : Params) : LoadM (Option (Nat × Nat)) := do
  if ← onUser pagedirCreate then
    match ← onFs (filesysOpen · params.fileName) with
    | none => return none
    | some f =>
      let r ← loadFile params f
      onFs fun s => return ((), ← fileClose s (some f))
      return r
  else return none

end Pintos.Userprog
