import Pintos.Foundation.Bytes
import Pintos.Kernel.Bitmap

/-! Sectors, on-disk and in-memory inodes, the free map and its file. -/

namespace Pintos.Filesys

open Pintos.Foundation Pintos.Kernel

def blockSectorSize : Nat := 512

def freeMapSector : Nat := 0

def rootDirSector : Nat := 1

def inodeMagic : Nat := 0x494e4f44

structure InodeDisk where
  start : Nat
  length : Int
  magic : Nat
  deriving DecidableEq, Repr

def InodeDisk.toBytes (d : InodeDisk) : List Byte :=
  word d.start ++ word (ofInt32 d.length) ++ word d.magic ++ List.replicate 500 0

def InodeDisk.ofBytes (bs : List Byte) : InodeDisk where
  start := wordOf bs
  length := toInt32 (wordOf (bs.drop 4))
  magic := wordOf (bs.drop 8)

def bytesToSectors (size : Int) : Nat :=
  ofInt32 ((toInt32 (ofInt32 (size + 511))).tdiv 512)

structure Inode where
  sector : Nat
  openCnt : Int
  removed : Bool
  denyWriteCnt : Int
  data : InodeDisk
  deriving DecidableEq, Repr

structure File where
  inode : Nat
  pos : Nat
  denyWrite : Bool
  deriving DecidableEq, Repr

/-- `mallocs` is what the coming calls of `malloc` and `calloc` answer; they succeed once it is empty. -/
structure Fs where
  disk : Memory
  sectors : Nat
  sectors_lt : sectors + 31 < 4294967296
  freeMap : Bitmap
  freeMapFile : Option Nat
  openInodes : List Nat
  inode : Nat → Option Inode
  file : Nat → Option File
  next : Nat
  mallocs : List Bool

def malloc : List Bool → Bool × List Bool
  | [] => (true, [])
  | ok :: rest => (ok, rest)

lemma malloc_drop (ms : List Bool) (k : Nat) : malloc (ms.drop k) = (ms.getD k true, ms.drop (k + 1)) := by
  induction ms generalizing k with
  | nil => simp [malloc]
  | cons ok ms ih =>
    cases k with
    | zero => rfl
    | succ k => exact ih k

@[simps -fullyApplied disk sectors freeMap freeMapFile openInodes file next mallocs]
def Fs.setInode (s : Fs) (p : Nat) (i : Option Inode) : Fs :=
  { s with inode := fun q => if q = p then i else s.inode q }

def Fs.setFile (s : Fs) (f : Nat) (x : Option File) : Fs :=
  { s with file := fun g => if g = f then x else s.file g }

def Fs.inodeAt (s : Fs) (p : Nat) : Except Panic Inode :=
  match s.inode p with
  | some i => .ok i
  | none => .error .wildPointer

def Fs.fileAt (s : Fs) (f : Nat) : Except Panic File :=
  match s.file f with
  | some x => .ok x
  | none => .error .wildPointer

def blockRead (disk : Memory) (sectors idx : Nat) : Except Panic (List Byte) :=
  if idx < sectors then .ok (disk.read (blockSectorSize * idx) blockSectorSize)
  else .error .accessPastEnd

def blockWrite (disk : Memory) (sectors idx : Nat) (buffer : List Byte) : Except Panic Memory :=
  if idx < sectors then .ok (disk.write (blockSectorSize * idx) buffer)
  else .error .accessPastEnd

def byteToSector (d : InodeDisk) (pos : Nat) : Nat :=
  if pos < d.length then wrap (d.start + pos / blockSectorSize) else 4294967295

def chunkSize (d : InodeDisk) (size offset : Nat) : Nat :=
  min size (min (d.length.toNat - offset) (blockSectorSize - offset % blockSectorSize))

def readLoop (disk : Memory) (sectors : Nat) (d : InodeDisk) :
    Nat → Bool → List Bool → Nat → Nat → Except Panic (List Byte × List Bool)
  | 0, _, mallocs, _, _ => return ([], mallocs)
  | fuel + 1, bounce, mallocs, size, offset => do
    let sectorIdx := byteToSector d offset
    let sectorOfs := offset % blockSectorSize
    let chunk := chunkSize d size offset
    if chunk = 0 then return ([], mallocs)
    else if sectorOfs = 0 ∧ chunk = blockSectorSize then
      let block ← blockRead disk sectors sectorIdx
      let (rest, mallocs) ←
        readLoop disk sectors d fuel bounce mallocs (size - chunk) (offset + chunk)
      return (block ++ rest, mallocs)
    else
      let (ok, mallocs) := if bounce then (true, mallocs) else malloc mallocs
      if ok then
        let block ← blockRead disk sectors sectorIdx
        let (rest, mallocs) ←
          readLoop disk sectors d fuel true mallocs (size - chunk) (offset + chunk)
        return ((block.drop sectorOfs).take chunk ++ rest, mallocs)
      else return ([], mallocs)

def inodeReadAt (s : Fs) (p : Nat) (size : Int) (offset : Nat) :
    Except Panic (List Byte × Fs) := do
  let i ← s.inodeAt p
  let (bytes, mallocs) ←
    readLoop s.disk s.sectors i.data size.toNat false s.mallocs size.toNat offset
  return (bytes, { s with mallocs })

def writeLoop (sectors : Nat) (d : InodeDisk) :
    Nat → Bool → List Bool → Memory → List Byte → Nat → Except Panic (Nat × Memory × List Bool)
  | 0, _, mallocs, disk, _, _ => return (0, disk, mallocs)
  | fuel + 1, bounce, mallocs, disk, buffer, offset => do
    let sectorIdx := byteToSector d offset
    let sectorOfs := offset % blockSectorSize
    let chunk := chunkSize d buffer.length offset
    if chunk = 0 then return (0, disk, mallocs)
    else if sectorOfs = 0 ∧ chunk = blockSectorSize then
      let disk ← blockWrite disk sectors sectorIdx (buffer.take chunk)
      let (n, disk, mallocs) ←
        writeLoop sectors d fuel bounce mallocs disk (buffer.drop chunk) (offset + chunk)
      return (chunk + n, disk, mallocs)
    else
      let (ok, mallocs) := if bounce then (true, mallocs) else malloc mallocs
      if ok then
        let block ←
          if 0 < sectorOfs ∨ chunk < blockSectorSize - sectorOfs then
            blockRead disk sectors sectorIdx
          else .ok (List.replicate blockSectorSize 0)
        let disk ← blockWrite disk sectors sectorIdx (overlay block sectorOfs (buffer.take chunk))
        let (n, disk, mallocs) ←
          writeLoop sectors d fuel true mallocs disk (buffer.drop chunk) (offset + chunk)
        return (chunk + n, disk, mallocs)
      else return (0, disk, mallocs)

def inodeWriteAt (s : Fs) (p : Nat) (buffer : List Byte) (size : Int) (offset : Nat) :
    Except Panic (Nat × Fs) := do
  let i ← s.inodeAt p
  if i.denyWriteCnt ≠ 0 then return (0, s)
  else
    let (n, disk, mallocs) ← writeLoop s.sectors i.data size.toNat false s.mallocs s.disk
      (buffer.take size.toNat) offset
    return (n, { s with disk, mallocs })

def fileReadAt (s : Fs) (f : Nat) (size : Int) (ofs : Nat) : Except Panic (List Byte × Fs) := do
  inodeReadAt s (← s.fileAt f).inode size ofs

def fileWriteAt (s : Fs) (f : Nat) (buffer : List Byte) (size : Int) (ofs : Nat) :
    Except Panic (Nat × Fs) := do
  inodeWriteAt s (← s.fileAt f).inode buffer size ofs

def bitmapBytes (b : Bitmap) : List Byte := b.bits.toList.flatMap fun w => word w.toNat

def lastMask (bitCnt : Nat) : BitVec 32 :=
  if bitCnt % elemBits ≠ 0 then 1#32 <<< (bitCnt % elemBits) - 1#32 else BitVec.allOnes 32

def bitmapOfBytes (b : Bitmap) (bs : List Byte) : Bitmap :=
  { b with
    bits := Array.ofFn fun i : Fin (elemCnt b.bitCnt) => .ofNat 32 (wordOf (bs.drop (4 * i)))
    size_bits := Array.size_ofFn }

def bitmapMaskLast (b : Bitmap) : Bitmap :=
  { b with
    bits := b.bits.modify (elemCnt b.bitCnt - 1) (· &&& lastMask b.bitCnt)
    size_bits := by rw [Array.size_modify, b.size_bits] }

def bitmapRead (s : Fs) (f : Nat) : Except Panic (Bool × Fs) := do
  if 0 < s.freeMap.bitCnt then
    let size := byteCnt s.freeMap.bitCnt
    let (bytes, s) ← fileReadAt s f size 0
    let b := bitmapOfBytes s.freeMap (overlay (bitmapBytes s.freeMap) 0 bytes)
    return (bytes.length = size, { s with freeMap := bitmapMaskLast b })
  else return (true, s)

def bitmapWrite (s : Fs) (f : Nat) : Except Panic (Bool × Fs) := do
  let size := byteCnt s.freeMap.bitCnt
  let (n, s) ← fileWriteAt s f (bitmapBytes s.freeMap) size 0
  return (n = size, s)

def freeMapAllocate (s : Fs) (cnt : Nat) : Except Panic (Option Nat × Fs) := do
  let (sector, map) ← bitmapScanAndFlip s.freeMap 0 cnt false
  if sector = bitmapError then return (none, s)
  else
    let s := { s with freeMap := map }
    match s.freeMapFile with
    | none => return (some sector, s)
    | some f =>
      let (ok, s) ← bitmapWrite s f
      if ok then return (some sector, s)
      else return (none, { s with freeMap := ← bitmapSetMultiple s.freeMap sector cnt false })

def freeMapRelease (s : Fs) (sector cnt : Nat) : Except Panic Fs := do
  assertThat ((← bitmapAll s.freeMap sector cnt) = true) .freeMapReleaseAll
  let s := { s with freeMap := ← bitmapSetMultiple s.freeMap sector cnt false }
  match s.freeMapFile with
  | none => .error .wildPointer
  | some f => return (← bitmapWrite s f).2

def zeroLoop (sectors start : Nat) : Nat → Nat → Memory → Except Panic Memory
  | 0, _, disk => return disk
  | n + 1, i, disk => do
    zeroLoop sectors start n (i + 1)
      (← blockWrite disk sectors (wrap (start + i)) (List.replicate blockSectorSize 0))

def inodeCreate (s : Fs) (sector : Nat) (length : Int) : Except Panic (Bool × Fs) := do
  assertThat (0 ≤ length) .inodeCreateLength
  let (ok, mallocs) := malloc s.mallocs
  let s := { s with mallocs }
  if ok then
    match ← freeMapAllocate s (bytesToSectors length) with
    | (none, s) => return (false, s)
    | (some start, s) =>
      let d : InodeDisk := { start, length, magic := inodeMagic }
      let disk ← blockWrite s.disk s.sectors sector d.toBytes
      let disk ← zeroLoop s.sectors start (bytesToSectors length) 0 disk
      return (true, { s with disk })
  else return (false, s)

def inodeReopen (s : Fs) (p : Nat) : Except Panic Fs := do
  let i ← s.inodeAt p
  return s.setInode p (some { i with openCnt := i.openCnt + 1 })

def Fs.findOpen (s : Fs) (sector : Nat) : Option Nat :=
  s.openInodes.find? fun p => (s.inode p).any fun i => i.sector == sector

def inodeOpen (s : Fs) (sector : Nat) : Except Panic (Option Nat × Fs) := do
  match s.findOpen sector with
  | some p => return (some p, ← inodeReopen s p)
  | none =>
    let (ok, mallocs) := malloc s.mallocs
    let s := { s with mallocs }
    if ok then
      let block ← blockRead s.disk s.sectors sector
      let p := s.next
      let s := { s with openInodes := p :: s.openInodes, next := p + 1 }
      return (some p, s.setInode p
        (some { sector, openCnt := 1, removed := false, denyWriteCnt := 0,
                data := InodeDisk.ofBytes block }))
    else return (none, s)

def inodeRelease (s : Fs) (i : Inode) : Except Panic Fs := do
  if i.removed then
    let s ← freeMapRelease s i.sector 1
    freeMapRelease s i.data.start (bytesToSectors i.data.length)
  else return s

def inodeClose (s : Fs) : Option Nat → Except Panic Fs
  | none => return s
  | some p => do
    let i ← s.inodeAt p
    if i.openCnt - 1 = 0 then
      let s := { s with openInodes := s.openInodes.erase p }
      let s ← inodeRelease (s.setInode p (some { i with openCnt := i.openCnt - 1 })) i
      return s.setInode p none
    else return s.setInode p (some { i with openCnt := i.openCnt - 1 })

def inodeRemove (s : Fs) (p : Nat) : Except Panic Fs := do
  let i ← s.inodeAt p
  return s.setInode p (some { i with removed := true })

def inodeDenyWrite (s : Fs) (p : Nat) : Except Panic Fs := do
  let i ← s.inodeAt p
  assertThat (i.denyWriteCnt + 1 ≤ i.openCnt) .inodeDenyWriteCnt
  return s.setInode p (some { i with denyWriteCnt := i.denyWriteCnt + 1 })

def inodeAllowWrite (s : Fs) (p : Nat) : Except Panic Fs := do
  let i ← s.inodeAt p
  assertThat (0 < i.denyWriteCnt) .inodeAllowWritePos
  assertThat (i.denyWriteCnt ≤ i.openCnt) .inodeAllowWriteCnt
  return s.setInode p (some { i with denyWriteCnt := i.denyWriteCnt - 1 })

end Pintos.Filesys
