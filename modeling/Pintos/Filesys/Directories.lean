import Pintos.Filesys.Inodes

/-! Open files, directories, and the file system's entry points. -/

namespace Pintos.Filesys

open Pintos.Foundation Pintos.Kernel

def fileOpen (s : Fs) (inode : Option Nat) : Except Panic (Option Nat × Fs) := do
  let (ok, mallocs) := malloc s.mallocs
  let s := { s with mallocs }
  match inode, ok with
  | some p, true =>
    let f := s.next
    let s := { s with next := f + 1 }
    return (some f, s.setFile f (some { inode := p, pos := 0, denyWrite := false }))
  | _, _ => return (none, ← inodeClose s inode)

def fileReopen (s : Fs) (f : Nat) : Except Panic (Option Nat × Fs) := do
  let x ← s.fileAt f
  fileOpen (← inodeReopen s x.inode) (some x.inode)

def fileDenyWrite (s : Fs) (f : Nat) : Except Panic Fs := do
  let x ← s.fileAt f
  if x.denyWrite then return s
  else inodeDenyWrite (s.setFile f (some { x with denyWrite := true })) x.inode

def fileAllowWrite (s : Fs) (f : Nat) : Except Panic Fs := do
  let x ← s.fileAt f
  if x.denyWrite then inodeAllowWrite (s.setFile f (some { x with denyWrite := false })) x.inode
  else return s

def fileClose (s : Fs) : Option Nat → Except Panic Fs
  | none => return s
  | some f => do
    let s ← fileAllowWrite s f
    let x ← s.fileAt f
    let s ← inodeClose s (some x.inode)
    return s.setFile f none

def fileRead (s : Fs) (f : Nat) (size : Int) : Except Panic (List Byte × Fs) := do
  let x ← s.fileAt f
  let (bytes, s) ← inodeReadAt s x.inode size x.pos
  return (bytes, s.setFile f (some { x with pos := x.pos + bytes.length }))

def fileWrite (s : Fs) (f : Nat) (buffer : List Byte) (size : Int) : Except Panic (Nat × Fs) := do
  let x ← s.fileAt f
  let (n, s) ← inodeWriteAt s x.inode buffer size x.pos
  return (n, s.setFile f (some { x with pos := x.pos + n }))

def fileLength (s : Fs) (f : Nat) : Except Panic Int := do
  let x ← s.fileAt f
  return (← s.inodeAt x.inode).data.length

def fileSeek (s : Fs) (f : Nat) (newPos : Int) : Except Panic Fs := do
  let x ← s.fileAt f
  assertThat (0 ≤ newPos) .fileSeekPos
  return s.setFile f (some { x with pos := newPos.toNat })

def fileTell (s : Fs) (f : Nat) : Except Panic Nat := do
  return (← s.fileAt f).pos

def freeMapOpenFile (s : Fs) : Except Panic (Nat × Fs) := do
  let (inode, s) ← inodeOpen s freeMapSector
  match ← fileOpen s inode with
  | (none, _) => .error .cantOpenFreeMap
  | (some f, s) => return (f, { s with freeMapFile := some f })

def freeMapInit (s : Fs) (junk : Nat → BitVec 32) : Except Panic Fs := do
  let (ok, mallocs) := malloc s.mallocs
  let (ok', mallocs) := if ok then malloc mallocs else (false, mallocs)
  if ok' ∨ (ok ∧ s.sectors = 0) then
    let b : Bitmap :=
      { bitCnt := s.sectors
        bits := Array.ofFn fun i : Fin (elemCnt s.sectors) => junk i
        size_bits := Array.size_ofFn
        bitCnt_lt := s.sectors_lt }
    let b ← bitmapSetAll b false
    return { s with freeMap := bitmapMark (bitmapMark b freeMapSector) rootDirSector, mallocs }
  else .error .bitmapCreationFailed

def freeMapCreate (s : Fs) : Except Panic Fs := do
  let (ok, s) ← inodeCreate s freeMapSector (byteCnt s.freeMap.bitCnt)
  if ok then
    let (f, s) ← freeMapOpenFile s
    let (ok, s) ← bitmapWrite s f
    if ok then return s else .error .cantWriteFreeMap
  else .error .freeMapCreationFailed

def freeMapOpen (s : Fs) : Except Panic Fs := do
  let (f, s) ← freeMapOpenFile s
  let (ok, s) ← bitmapRead s f
  if ok then return s else .error .cantReadFreeMap

def freeMapClose (s : Fs) : Except Panic Fs := fileClose s s.freeMapFile

/-- A NUL-terminated name: its bytes up to the terminator. -/
abbrev Name := { cs : List Byte // 0 ∉ cs }

def nameMax : Nat := 14

def entrySize : Nat := 20

def entrySector (e : List Byte) : Nat := wordOf e

def entryName (e : List Byte) : List Byte := (e.drop 4).takeWhile (· ≠ 0)

def entryInUse (e : List Byte) : Bool := e.getD 19 0 != 0

def Entry.fill (e : List Byte) (name : Name) (sector : Nat) : List Byte :=
  word sector ++ (name.val ++ 0 :: (e.take 19).drop (5 + name.val.length)) ++ [1]

def Entry.erase (e : List Byte) : List Byte := e.set 19 0

structure Dir where
  inode : Nat
  pos : Nat
  deriving DecidableEq, Repr

def dirCreate (s : Fs) (sector entryCnt : Nat) : Except Panic (Bool × Fs) :=
  inodeCreate s sector (toInt32 (wrap (entryCnt * entrySize)))

def dirOpen (s : Fs) (inode : Option Nat) : Except Panic (Option Dir × Fs) := do
  let (ok, mallocs) := malloc s.mallocs
  let s := { s with mallocs }
  match inode, ok with
  | some p, true => return (some { inode := p, pos := 0 }, s)
  | _, _ => return (none, ← inodeClose s inode)

def dirOpenRoot (s : Fs) : Except Panic (Option Dir × Fs) := do
  let (inode, s) ← inodeOpen s rootDirSector
  dirOpen s inode

def dirClose (s : Fs) : Option Dir → Except Panic Fs
  | none => return s
  | some dir => inodeClose s (some dir.inode)

def lookupLoop (dir : Dir) (name : Name) :
    Nat → Nat → Fs → Except Panic (Option (List Byte × Nat) × Fs)
  | 0, _, s => return (none, s)
  | fuel + 1, ofs, s => do
    let (e, s) ← inodeReadAt s dir.inode entrySize ofs
    if e.length = entrySize then
      if entryInUse e ∧ name.val = entryName e then return (some (e, ofs), s)
      else lookupLoop dir name fuel (ofs + entrySize) s
    else return (none, s)

def Fs.entryFuel (s : Fs) (p : Nat) : Nat :=
  match s.inode p with
  | some i => i.data.length.toNat / entrySize + 1
  | none => 1

def lookup (s : Fs) (dir : Dir) (name : Name) : Except Panic (Option (List Byte × Nat) × Fs) :=
  lookupLoop dir name (s.entryFuel dir.inode) 0 s

def dirLookup (s : Fs) (dir : Dir) (name : Name) : Except Panic (Option Nat × Fs) := do
  match ← lookup s dir name with
  | (some (e, _), s) => inodeOpen s (entrySector e)
  | (none, s) => return (none, s)

def slotLoop (dir : Dir) : Nat → Nat → List Byte → Fs → Except Panic (List Byte × Nat × Fs)
  | 0, ofs, e, s => return (e, ofs, s)
  | fuel + 1, ofs, e, s => do
    let (bytes, s) ← inodeReadAt s dir.inode entrySize ofs
    let e := overlay e 0 bytes
    if bytes.length = entrySize ∧ entryInUse e then slotLoop dir fuel (ofs + entrySize) e s
    else return (e, ofs, s)

def dirSlot (s : Fs) (dir : Dir) : Except Panic (List Byte × Nat × Fs) :=
  slotLoop dir (s.entryFuel dir.inode) 0 (List.replicate entrySize 0) s

def nameValid (name : Name) : Bool := name.val ≠ [] ∧ name.val.length ≤ nameMax

def dirWrite (s : Fs) (dir : Dir) (e : List Byte) (ofs : Nat) : Except Panic (Bool × Fs) := do
  let (n, s) ← inodeWriteAt s dir.inode e entrySize ofs
  return (n = entrySize, s)

def dirAdd (s : Fs) (dir : Dir) (name : Name) (inodeSector : Nat) : Except Panic (Bool × Fs) := do
  if nameValid name then
    match ← lookup s dir name with
    | (some _, s) => return (false, s)
    | (none, s) =>
      let (e, ofs, s) ← dirSlot s dir
      dirWrite s dir (Entry.fill e name inodeSector) ofs
  else return (false, s)

def dirRemove (s : Fs) (dir : Dir) (name : Name) : Except Panic (Bool × Fs) := do
  match ← lookup s dir name with
  | (none, s) => return (false, s)
  | (some (e, ofs), s) =>
    match ← inodeOpen s (entrySector e) with
    | (none, s) => return (false, s)
    | (some p, s) =>
      let (ok, s) ← dirWrite s dir (Entry.erase e) ofs
      let s ← if ok then inodeRemove s p else pure s
      return (ok, ← inodeClose s (some p))

def readdirLoop : Nat → Dir → Fs → Except Panic (Option (List Byte) × Dir × Fs)
  | 0, dir, s => return (none, dir, s)
  | fuel + 1, dir, s => do
    let (e, s) ← inodeReadAt s dir.inode entrySize dir.pos
    if e.length = entrySize then
      let dir := { dir with pos := dir.pos + entrySize }
      if entryInUse e then return (some ((entryName e).take nameMax), dir, s)
      else readdirLoop fuel dir s
    else return (none, dir, s)

def dirReaddir (s : Fs) (dir : Dir) : Except Panic (Option (List Byte) × Dir × Fs) :=
  readdirLoop (s.entryFuel dir.inode) dir s

def filesysCreate (s : Fs) (name : Name) (initialSize : Int) : Except Panic (Bool × Fs) := do
  match ← dirOpenRoot s with
  | (none, s) => return (false, s)
  | (some dir, s) =>
    match ← freeMapAllocate s 1 with
    | (none, s) => return (false, ← dirClose s (some dir))
    | (some inodeSector, s) =>
      let (ok, s) ← inodeCreate s inodeSector initialSize
      let (ok, s) ← if ok then dirAdd s dir name inodeSector else pure (false, s)
      let s ← if !ok ∧ inodeSector ≠ 0 then freeMapRelease s inodeSector 1 else pure s
      return (ok, ← dirClose s (some dir))

def filesysOpen (s : Fs) (name : Name) : Except Panic (Option Nat × Fs) := do
  match ← dirOpenRoot s with
  | (none, s) => fileOpen s none
  | (some dir, s) =>
    let (inode, s) ← dirLookup s dir name
    fileOpen (← dirClose s (some dir)) inode

def filesysRemove (s : Fs) (name : Name) : Except Panic (Bool × Fs) := do
  match ← dirOpenRoot s with
  | (none, s) => return (false, s)
  | (some dir, s) =>
    let (ok, s) ← dirRemove s dir name
    return (ok, ← dirClose s (some dir))

def doFormat (s : Fs) : Except Panic Fs := do
  let s ← freeMapCreate s
  let (ok, s) ← dirCreate s rootDirSector 16
  if ok then freeMapClose s else .error .rootDirectoryCreationFailed

def filesysInit (s : Fs) (junk : Nat → BitVec 32) (format : Bool) : Except Panic Fs := do
  let s ← freeMapInit s junk
  let s ← if format then doFormat s else pure s
  freeMapOpen s

/-- The file system before `filesys_init`: a device, and none of the kernel's own data. -/
def boot (disk : Memory) (sectors : Nat) (h : sectors + 31 < 4294967296) (mallocs : List Bool) : Fs where
  disk
  sectors
  sectors_lt := h
  freeMap := { bitCnt := 0, bits := #[], size_bits := rfl, bitCnt_lt := by decide }
  freeMapFile := none
  openInodes := []
  inode _ := none
  file _ := none
  next := 0
  mallocs

end Pintos.Filesys
