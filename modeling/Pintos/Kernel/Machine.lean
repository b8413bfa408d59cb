import Mathlib.Data.Nat.Basic
import Mathlib.Tactic.Common

/-! The 32-bit machine: wrapping arithmetic, rounding, virtual addresses, and kernel panics. -/

namespace Pintos.Kernel

def wrap (n : Nat) : Nat := n % 4294967296

variable {n : Nat} {p : Prop} {α β ε : Type}

lemma wrap_of_lt (h : n < 4294967296) : wrap n = n := Nat.mod_eq_of_lt h

lemma wrap_lt (n : Nat) : wrap n < 4294967296 := Nat.mod_lt n (by decide)

def toInt32 (n : Nat) : Int := if n < 2147483648 then n else n - 4294967296

def ofInt32 (i : Int) : Nat := (i % 4294967296).toNat

lemma ofInt32_natCast (h : n < 4294967296) : ofInt32 n = n := by
  rw [ofInt32]
  omega

lemma toInt32_of_lt (h : n < 2147483648) : toInt32 n = n := if_pos h

lemma toInt32_of_ge (h : 2147483648 ≤ n) : toInt32 n = n - 4294967296 := if_neg (by omega)

def divRoundUp (x step : Nat) : Nat := wrap (x + step - 1) / step

def roundUp (x step : Nat) : Nat := divRoundUp x step * step

def pgSize : Nat := 4096

def physBase : Nat := 0xc0000000

def pgOfs (va : Nat) : Nat := va % pgSize

def pgNo (va : Nat) : Nat := va / pgSize

def pgRoundDown (va : Nat) : Nat := va / pgSize * pgSize

inductive PoolName
  | kernelPool
  | userPool
  deriving DecidableEq, Repr

inductive Assertion
  | bitmapSetIdx | bitmapTestIdx
  | bitmapSetMultipleStart | bitmapSetMultipleEnd
  | bitmapContainsStart | bitmapContainsEnd
  | bitmapCountStart | bitmapCountEnd
  | bitmapScanStart | bitmapCreateInBufSize
  | ptovPaddr | freeMultipleOfs | freeMultipleInUse
  | blockToArenaNull | blockToArenaMagic | blockToArenaAligned | blockToArenaBig
  | arenaToBlockNull | arenaToBlockMagic | arenaToBlockIdx | freeFreeCnt
  | listFrontEmpty
  | lockAcquireHeld | lockReleaseHeld | threadUnblockStatus
  | initThreadThread | initThreadPriority
  | loadSegmentBytes | loadSegmentUpage | loadSegmentOfs
  | vtopVaddr | pdeCreateOfs | pdeGetPtPresent | pteCreateOfs
  | lookupPagePd | lookupPageCreate | pagedirDestroyInit
  | pagedirSetPageUpage | pagedirSetPageKpage | pagedirSetPageVaddr | pagedirSetPageFrame
  | pagedirSetPageInit | pagedirSetPagePresent
  | pagedirGetPageVaddr | pagedirClearPageUpage | pagedirClearPageVaddr
  | getArgumentsCount | userStringsFlag
  | intqPutcContext | intqWaitCondition | intqSignalCondition | inputPutcFull
  | selectSectorNo
  | freeMapReleaseAll
  | inodeCreateLength | inodeDenyWriteCnt | inodeAllowWritePos | inodeAllowWriteCnt
  | fileSeekPos
  | memcpySrc | memmoveDst | memmoveSrc
  | sortArray | sortSize
  | strtokS
  | blockWriteType
  deriving DecidableEq, Repr

inductive Panic
  | assertion (a : Assertion)
  | notEnoughMemory (pool : PoolName)
  | outOfPages
  | notReached
  | wildPointer
  | kernelBug
  | accessPastEnd
  | bitmapCreationFailed
  | cantOpenFreeMap | cantReadFreeMap | freeMapCreationFailed | cantWriteFreeMap
  | rootDirectoryCreationFailed
  | commandLineOverflow
  | noMemoryForPartitionTable | noMemoryForPartition | noMemoryForBlock
  | diskReadFailed (sector : Nat) | diskWriteFailed (sector : Nat)
  | noMemoryForBuffer | noScratchDevice
  | openFailed | nameTooLong | outOfSpace
  | readFailed (unread : Nat)
  deriving DecidableEq, Repr

def assertThat (p : Prop) [Decidable p] (a : Assertion) : Except Panic Unit :=
  if p then .ok () else .error (.assertion a)

lemma assertThat_pos [Decidable p] (h : p) (a : Assertion) : assertThat p a = .ok () :=
  if_pos h

lemma assertThat_neg [Decidable p] (h : ¬ p) (a : Assertion) :
    assertThat p a = .error (.assertion a) :=
  if_neg h

@[simp] lemma bind_ok (a : α) (f : α → Except ε β) : (Except.ok a >>= f) = f a := rfl

@[simp] lemma bind_error (e : ε) (f : α → Except ε β) :
    ((Except.error e : Except ε α) >>= f) = .error e := rfl

lemma pure_eq_ok (a : α) : (pure a : Except ε α) = .ok a := rfl

lemma bind_of_ok {x : Except ε α} {a : α} (h : x = .ok a) (f : α → Except ε β) : x >>= f = f a := h ▸ rfl

lemma bind_eq_ok {x : Except ε α} {f : α → Except ε β} {b : β} :
    (x >>= f) = .ok b ↔ ∃ a, x = .ok a ∧ f a = .ok b := by
  cases x with
  | error e => simp
  | ok a => simp

lemma assertThat_bind_eq_ok [Decidable p] {a : Assertion} {f : Unit → Except Panic α} {r : α} :
    (assertThat p a >>= f) = .ok r ↔ p ∧ f () = .ok r := by
  by_cases hp : p
  · rw [assertThat_pos hp, bind_ok]
    exact (and_iff_right hp).symm
  · rw [assertThat_neg hp, bind_error]
    exact iff_of_false (fun h => nomatch h) fun h => hp h.1

lemma toOption_eq_some {r : Except ε α} {a : α} (h : r.toOption = some a) : r = .ok a := by
  cases r with
  | ok b => exact congrArg Except.ok (Option.some.inj h)
  | error e => cases h

lemma exists_of_any {p : α → Bool} {x : Except ε α} (h : x.toOption.any p = true) :
    ∃ a, x = .ok a ∧ p a = true := by
  cases x with
  | ok a => exact ⟨a, rfl, h⟩
  | error e => cases h

def panicOf {α : Type} : Except Panic α → Option Panic
  | .ok _ => none
  | .error e => some e

lemma eq_error_of_panicOf {r : Except Panic α} {e : Panic} (h : panicOf r = some e) :
    r = .error e := by
  cases r with
  | ok a => simp [panicOf] at h
  | error e' => rw [Option.some.inj h]

def ptov (paddr : Nat) : Except Panic Nat := do
  assertThat (paddr < physBase) .ptovPaddr
  return wrap (paddr + physBase)

end Pintos.Kernel
