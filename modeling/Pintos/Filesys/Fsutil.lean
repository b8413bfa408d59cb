import Pintos.Filesys.Directories
import Pintos.Lib.Ustar

/-! Copying files of the file system to an archive on the scratch device. -/

namespace Pintos.Filesys

open Pintos.Foundation Pintos.Kernel Pintos.Lib

structure Device where
  disk : Memory
  sectors : Nat
  sectors_lt : sectors < 4294967296

def Device.write (v : Device) (idx : Nat) (buffer : List Byte) : Except Panic Device := do
  return { v with disk := ← blockWrite v.disk v.sectors idx buffer }

def chunkOf (size : Nat) : Nat := if blockSectorSize < size then blockSectorSize else size

def appendLoop (f : Nat) : Nat → Fs → Device → Nat → Nat → Except Panic (Fs × Device × Nat)
  | 0, s, dst, sector, _ => return (s, dst, sector)
  | fuel + 1, s, dst, sector, size => do
    if 0 < size then
      if dst.sectors ≤ sector then .error .outOfSpace
      else
        let (bytes, s) ← fileRead s f (chunkOf size)
        if bytes.length = chunkOf size then
          let dst ← dst.write sector (bytes ++ zeros (blockSectorSize - chunkOf size))
          appendLoop f fuel s dst (wrap (sector + 1)) (size - chunkOf size)
        else .error (.readFailed size)
    else return (s, dst, sector)

/-- `beyond` is the byte in memory behind the buffer. -/
def fsutilAppend (s : Fs) (scratch : Option Device) (sector : Nat) (fileName : Name) (beyond : Byte) :
    Except Panic (Fs × Device × Nat) := do
  let (ok, mallocs) := malloc s.mallocs
  if ok then
    match ← filesysOpen { s with mallocs } fileName with
    | (none, _) => .error .openFailed
    | (some src, s) =>
      let size ← fileLength s src
      match scratch with
      | none => .error .noScratchDevice
      | some dst =>
        match ustarMakeHeader fileName.val .regular size with
        | none => .error .nameTooLong
        | some header =>
          let dst ← dst.write sector header
          let (s, dst, sector) ← appendLoop src size.toNat s dst (wrap (sector + 1)) size.toNat
          let dst ← dst.write sector (zeros blockSectorSize)
          let dst ← dst.write sector (zeros (blockSectorSize - 1) ++ [beyond])
          return (← fileClose s (some src), dst, sector)
  else .error .noMemoryForBuffer

end Pintos.Filesys
