import Mathlib.Data.List.TakeWhile
import Pintos.Filesys.Directories
import Pintos.Userprog.Descriptors
import Pintos.Userprog.Space

/-! The system call handler, up to where it hands over to `process_execute` and `process_wait`. -/

namespace Pintos.Syscall

open Pintos.Foundation Pintos.Kernel Pintos.Filesys Pintos.Userprog

abbrev Word := BitVec 32

/-- What the handler works on for one process. `accesses` holds the ranges of addresses given by the
user that the kernel has read or written, and `strays` those it has read through a null pointer;
`keys` are the coming answers of `input_getc`, and `held` the files that are open in the kernel. -/
structure Kernel where
  space : Space
  fs : Fs
  held : List Nat
  files : Descriptors Nat
  console : List Byte
  keys : Nat → Byte
  accesses : List Range
  strays : List Range

inductive Stop
  | exited (status : Int)
  | poweredOff
  | panicked (p : Panic)
  | tableOverrun
  deriving DecidableEq

abbrev SysM := EStateM Stop Kernel

def exit {α : Type} (status : Int) : SysM α := throw (.exited status)

def assertSys (p : Prop) [Decidable p] (a : Assertion) : SysM Unit :=
  if p then pure () else throw (.panicked (.assertion a))

def Kernel.Readable (k : Kernel) (r : Range) : Prop := ∀ i < r.size, k.space.page (pgNo (r.start + i)) ≠ none

instance (k : Kernel) (r : Range) : Decidable (k.Readable r) := inferInstanceAs (Decidable (∀ i < r.size, _))

def Kernel.Writable (k : Kernel) (r : Range) : Prop := ∀ i < r.size, k.space.Writable (r.start + i)

instance (k : Kernel) (r : Range) : Decidable (k.Writable r) := inferInstanceAs (Decidable (∀ i < r.size, _))

/-- A read of an unmapped page is a page fault in the kernel. -/
def load (r : Range) : SysM (List Byte) := do
  modify fun k => { k with accesses := r :: k.accesses }
  let k ← get
  if k.Readable r then return k.space.bytes.read r.start r.size else throw (.panicked .kernelBug)

/-- A store to a page that is not mapped writable is a page fault too. -/
def store (va : Nat) (bs : List Byte) : SysM Unit := do
  modify fun k => { k with accesses := ⟨va, bs.length⟩ :: k.accesses }
  let k ← get
  if k.Writable ⟨va, bs.length⟩ then set { k with space := k.space.written va bs }
  else throw (.panicked .kernelBug)

def loadStray (r : Range) : SysM (List Byte) := do
  modify fun k => { k with strays := r :: k.strays }
  let k ← get
  if k.Readable r then return k.space.bytes.read r.start r.size else throw (.panicked .kernelBug)

def checkAddress (addr : Nat) : SysM Unit :=
  if isUserVaddr addr = true ∧ 0x08048000 ≤ addr then pure () else exit (-1)

def checkAddress4 (addr : Nat) : SysM Unit := do
  checkAddress addr
  checkAddress (wrap (addr + 3))

def loadWord (va : Nat) : SysM Word := do
  return .ofNat 32 (wordOf (← load ⟨va, 4⟩))

def argumentLoop : Nat → Nat → SysM (List Word)
  | _, 0 => return []
  | esp, count + 1 => do
    let esp := wrap (esp + 4)
    checkAddress4 esp
    let arg ← loadWord esp
    return arg :: (← argumentLoop esp count)

def getArguments (esp count : Nat) : SysM (List Word) := do
  assertSys (1 ≤ count ∧ count ≤ 4) .getArgumentsCount
  argumentLoop esp count

def checkUserStringL : Nat → Nat → SysM Unit
  | _, 0 => return ()
  | str, size + 1 => do
    checkAddress str
    checkUserStringL (wrap (str + 1)) size

/-- The loop leaves the user's addresses within `physBase` rounds. -/
def checkStringLoop : Nat → Nat → SysM Unit
  | 0, _ => return ()
  | fuel + 1, str => do
    checkAddress str
    let c ← load ⟨str, 1⟩
    if c.getD 0 0 ≠ 0 then checkStringLoop fuel (wrap (str + 1))

def checkUserString (str : Nat) : SysM Unit := checkStringLoop (physBase + 1) str

def strlenLoop : Nat → Nat → Nat → SysM Nat
  | 0, _, n => return n
  | fuel + 1, p, n => do
    let c ← load ⟨p, 1⟩
    if c.getD 0 0 ≠ 0 then strlenLoop fuel (wrap (p + 1)) (n + 1) else return n

def strlen (str : Nat) : SysM Nat := strlenLoop (physBase + 1) str 0

/-- `malloc (0)` is null. -/
def mallocBytes (size : Nat) : SysM Bool := do
  if size = 0 then return false
  else
    let k ← get
    let (ok, mallocs) := malloc k.fs.mallocs
    set { k with fs := { k.fs with mallocs } }
    return ok

def getUserStringL (str size : Nat) : SysM (Option (List Byte)) := do
  if ← mallocBytes size then return some (← load ⟨str, size⟩) else return none

def getUserString (str : Nat) : SysM (Option (List Byte)) := do
  let size := (← strlen str) + 1
  getUserStringL str size

def isFlagged (flag index : Nat) : Bool := decide (flag &&& (8 >>> index) ≠ 0)

def checkSingleUserString (args : List Word) (flag index : Nat) : SysM Unit :=
  if isFlagged flag index then checkUserString (args.getD index 0).toNat else pure ()

def getSingleUserString (args : List Word) (flag index : Nat) : SysM (List Byte) := do
  if isFlagged flag index then
    match ← getUserString (args.getD index 0).toNat with
    | some copy => return copy
    | none => exit (-1)
  else return []

def getUserStrings (args : List Word) (flag : Nat) : SysM (List (List Byte)) := do
  assertSys (flag ≤ 15) .userStringsFlag
  checkSingleUserString args flag 0
  checkSingleUserString args flag 1
  checkSingleUserString args flag 2
  checkSingleUserString args flag 3
  let first ← getSingleUserString args flag 0
  let second ← getSingleUserString args flag 1
  let third ← getSingleUserString args flag 2
  let fourth ← getSingleUserString args flag 3
  return [first, second, third, fourth]

def stringOf (copy : List Byte) : Name where
  val := copy.takeWhile (· ≠ 0)
  property h := by simpa using List.mem_takeWhile_imp h

def onFs {α : Type} (x : Fs → Except Panic (α × Fs)) : SysM α := do
  let k ← get
  match x k.fs with
  | .ok (a, fs) =>
    set { k with fs }
    return a
  | .error e => throw (.panicked e)

def onFiles {α : Type} (x : Descriptors Nat → Except Outside (α × Descriptors Nat)) : SysM α := do
  let k ← get
  match x k.files with
  | .ok (a, files) =>
    set { k with files }
    return a
  | .error _ => throw .tableOverrun

def getFile (fd : Int) : SysM (Option Nat) :=
  onFiles fun d => do return (← processGetFile d fd, d)

def ofBool (b : Bool) : Word := if b then 1 else 0

def create (file : Name) (initialSize : Word) : SysM Word := do
  return ofBool (← onFs (filesysCreate · file initialSize.toInt))

def remove (file : Name) : SysM Word := do
  return ofBool (← onFs (filesysRemove · file))

def «open» (file : Name) : SysM Word := do
  let f ← onFs (filesysOpen · file)
  modify fun k => { k with held := f.toList ++ k.held }
  let fd ← onFiles (processAddFile · f)
  return .ofInt 32 fd

def filesize (fd : Int) : SysM Word := do
  match ← getFile fd with
  | none => return -1
  | some f => return .ofInt 32 (← onFs fun s => do return (← fileLength s f, s))

def inputGetc : SysM Byte := do
  let k ← get
  set { k with keys := fun i => k.keys (i + 1) }
  return k.keys 0

def readKeys : Nat → Nat → SysM Unit
  | _, 0 => return ()
  | buffer, count + 1 => do
    let key ← inputGetc
    store buffer [key]
    readKeys (buffer + 1) count

def read (fd : Int) (buffer : Nat) (size : Word) : SysM Word := do
  if fd = 0 then
    readKeys buffer size.toNat
    return size
  else
    match ← getFile fd with
    | none => return -1
    | some f =>
      let bytes ← onFs (fileRead · f size.toInt)
      store buffer bytes
      return .ofNat 32 bytes.length

/-- The byte of a buffer in the kernel, which is at address 0 when it could not be allocated. -/
def byteOf (buffer : Option (List Byte)) (i : Nat) : SysM Byte := do
  match buffer with
  | some bytes => return bytes.getD i 0
  | none => return (← loadStray ⟨i, 1⟩).getD 0 0

def putbuf (buffer : Option (List Byte)) : Nat → Nat → SysM Unit
  | _, 0 => return ()
  | i, n + 1 => do
    let c ← byteOf buffer i
    modify fun k => { k with console := k.console ++ [c] }
    putbuf buffer (i + 1) n

/-- Whether `inode_write_at` begins with a whole sector, which goes to the device straight from the
buffer; it copies any other with `memcpy`. -/
def startsWhole (s : Fs) (f size : Nat) : Bool :=
  ((s.file f).bind fun x => (s.inode x.inode).map fun i =>
    decide (x.pos % blockSectorSize = 0 ∧ chunkSize i.data size x.pos = blockSectorSize)).getD false

/-- Through a null pointer `inode_write_at` reads as many bytes from address 0 on as it writes, if it
gets past the first `memcpy`; what reached the device before a panic is left out. -/
def writeFile (f : Nat) (buffer : Option (List Byte)) (size : Word) : SysM Nat := do
  match buffer with
  | some bytes => onFs (fileWrite · f bytes size.toInt)
  | none =>
    let k ← get
    match fileWrite k.fs f (k.space.bytes.read 0 size.toNat) size.toInt with
    | .ok (n, fs) =>
      assertSys (n = 0 ∨ startsWhole k.fs f size.toInt.toNat) .memcpySrc
      let _ ← loadStray ⟨0, n⟩
      modify fun k => { k with fs }
      return n
    | .error e => throw (.panicked e)

def write (fd : Int) (buffer : Option (List Byte)) (size : Word) : SysM Word := do
  if fd = 1 then
    putbuf buffer 0 size.toNat
    return size
  else
    match ← getFile fd with
    | none => return 0
    | some f => return .ofNat 32 (← writeFile f buffer size)

def seek (fd : Int) (position : Word) : SysM Unit := do
  match ← getFile fd with
  | none => return ()
  | some f => onFs fun s => do return ((), ← fileSeek s f position.toInt)

def tell (fd : Int) : SysM Word := do
  match ← getFile fd with
  | none => exit (-1)
  | some f => return .ofNat 32 (← onFs fun s => do return (← fileTell s f, s))

def close (fd : Int) : SysM Unit := do
  let f ← onFiles (processCloseFile · fd)
  onFs fun s => do return ((), ← fileClose s f)
  modify fun k => { k with held := f.elim k.held k.held.erase }

def readCall (fd : Word) (buffer : Nat) (size : Word) : SysM Word := do
  checkUserStringL buffer size.toNat
  read fd.toInt buffer size

def writeCall (fd : Word) (buffer : Nat) (size : Word) : SysM Word := do
  checkUserStringL buffer size.toNat
  let copy ← getUserStringL buffer size.toNat
  write fd.toInt copy size

inductive SyscallNr
  | halt | exit | exec | wait | create | remove | «open» | filesize | read | write | seek | tell | close
  | mmap | munmap | chdir | mkdir | readdir | isdir | inumber
  deriving DecidableEq, Repr

def SyscallNr.all : List SyscallNr :=
  [.halt, .exit, .exec, .wait, .create, .remove, .open, .filesize, .read, .write, .seek, .tell, .close,
   .mmap, .munmap, .chdir, .mkdir, .readdir, .isdir, .inumber]

/-- What a served call leaves: a value in `eax`, nothing, or arguments for `exec` and `wait`. -/
inductive Served
  | eax (value : Word)
  | unchanged
  | exec (file : Name)
  | wait (tid : Int)

def serve (esp : Nat) : Option SyscallNr → SysM Served
  | some .halt => throw .poweredOff
  | some .exit => do
    let args ← getArguments esp 1
    exit (args.getD 0 0).toInt
  | some .create => do
    let args ← getArguments esp 2
    let strings ← getUserStrings args 8
    return .eax (← create (stringOf (strings.getD 0 [])) (args.getD 1 0))
  | some .remove => do
    let args ← getArguments esp 1
    let strings ← getUserStrings args 8
    return .eax (← remove (stringOf (strings.getD 0 [])))
  | some .write => do
    let args ← getArguments esp 3
    return .eax (← writeCall (args.getD 0 0) (args.getD 1 0).toNat (args.getD 2 0))
  | some .exec => do
    let args ← getArguments esp 1
    let strings ← getUserStrings args 8
    return .exec (stringOf (strings.getD 0 []))
  | some .wait => do
    let args ← getArguments esp 1
    return .wait (args.getD 0 0).toInt
  | some .open => do
    let args ← getArguments esp 1
    let strings ← getUserStrings args 8
    return .eax (← «open» (stringOf (strings.getD 0 [])))
  | some .filesize => do
    let args ← getArguments esp 1
    return .eax (← filesize (args.getD 0 0).toInt)
  | some .read => do
    let args ← getArguments esp 3
    return .eax (← readCall (args.getD 0 0) (args.getD 1 0).toNat (args.getD 2 0))
  | some .seek => do
    let args ← getArguments esp 2
    seek (args.getD 0 0).toInt (args.getD 1 0)
    return .unchanged
  | some .tell => do
    let args ← getArguments esp 1
    return .eax (← tell (args.getD 0 0).toInt)
  | some .close => do
    let args ← getArguments esp 1
    close (args.getD 0 0).toInt
    return .unchanged
  | _ => exit (-1)

def syscallHandler (esp : Nat) : SysM Served := do
  checkAddress4 esp
  let number ← loadWord esp
  serve esp SyscallNr.all[number.toNat]?

end Pintos.Syscall
