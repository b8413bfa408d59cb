import Pintos.Foundation.ByteMemory
import Pintos.Kernel.Machine
import Mathlib.Data.BitVec

/-! Bitmaps as arrays of 32-bit elements: single bits and loops over ranges of bits. -/

namespace Pintos.Kernel

open Pintos.Foundation

def elemBits : Nat := 32

def elemIdx (bitIdx : Nat) : Nat := bitIdx / elemBits

def bitMask (bitIdx : Nat) : BitVec 32 := 1#32 <<< (bitIdx % elemBits)

def elemCnt (bitCnt : Nat) : Nat := divRoundUp bitCnt elemBits

def byteCnt (bitCnt : Nat) : Nat := wrap (4 * elemCnt bitCnt)

def bitmapError : Nat := 4294967295

structure Bitmap where
  bitCnt : Nat
  bits : Array (BitVec 32)
  size_bits : bits.size = elemCnt bitCnt
  bitCnt_lt : bitCnt + 31 < 4294967296

def bitmapBufSize (bitCnt : Nat) : Nat := wrap (8 + byteCnt bitCnt)

def bitmapMark (b : Bitmap) (bitIdx : Nat) : Bitmap :=
  { b with
    bits := b.bits.modify (elemIdx bitIdx) (· ||| bitMask bitIdx)
    size_bits := by rw [Array.size_modify, b.size_bits] }

def bitmapReset (b : Bitmap) (bitIdx : Nat) : Bitmap :=
  { b with
    bits := b.bits.modify (elemIdx bitIdx) (· &&& ~~~ bitMask bitIdx)
    size_bits := by rw [Array.size_modify, b.size_bits] }

def bitmapFlip (b : Bitmap) (bitIdx : Nat) : Bitmap :=
  { b with
    bits := b.bits.modify (elemIdx bitIdx) (· ^^^ bitMask bitIdx)
    size_bits := by rw [Array.size_modify, b.size_bits] }

def bitmapSet (b : Bitmap) (idx : Nat) (value : Bool) : Except Panic Bitmap := do
  assertThat (idx < b.bitCnt) .bitmapSetIdx
  return if value then bitmapMark b idx else bitmapReset b idx

def bitmapTest (b : Bitmap) (idx : Nat) : Except Panic Bool := do
  assertThat (idx < b.bitCnt) .bitmapTestIdx
  return (b.bits.getD (elemIdx idx) 0 &&& bitMask idx) != 0

def setLoop (start : Nat) (value : Bool) : Nat → Nat → Bitmap → Except Panic Bitmap
  | 0, _, b => return b
  | n + 1, i, b => do setLoop start value n (i + 1) (← bitmapSet b (wrap (start + i)) value)

def bitmapSetMultiple (b : Bitmap) (start cnt : Nat) (value : Bool) : Except Panic Bitmap := do
  assertThat (start ≤ b.bitCnt) .bitmapSetMultipleStart
  assertThat (wrap (start + cnt) ≤ b.bitCnt) .bitmapSetMultipleEnd
  setLoop start value cnt 0 b

def bitmapSetAll (b : Bitmap) (value : Bool) : Except Panic Bitmap :=
  bitmapSetMultiple b 0 b.bitCnt value

def countLoop (b : Bitmap) (start : Nat) (value : Bool) : Nat → Nat → Nat → Except Panic Nat
  | 0, _, valueCnt => return valueCnt
  | n + 1, i, valueCnt => do
    if (← bitmapTest b (wrap (start + i))) == value then countLoop b start value n (i + 1) (valueCnt + 1)
    else countLoop b start value n (i + 1) valueCnt

def bitmapCount (b : Bitmap) (start cnt : Nat) (value : Bool) : Except Panic Nat := do
  assertThat (start ≤ b.bitCnt) .bitmapCountStart
  assertThat (wrap (start + cnt) ≤ b.bitCnt) .bitmapCountEnd
  countLoop b start value cnt 0 0

def containsLoop (b : Bitmap) (start : Nat) (value : Bool) : Nat → Nat → Except Panic Bool
  | 0, _ => return false
  | n + 1, i => do
    if (← bitmapTest b (wrap (start + i))) == value then return true
    else containsLoop b start value n (i + 1)

def bitmapContains (b : Bitmap) (start cnt : Nat) (value : Bool) : Except Panic Bool := do
  assertThat (start ≤ b.bitCnt) .bitmapContainsStart
  assertThat (wrap (start + cnt) ≤ b.bitCnt) .bitmapContainsEnd
  containsLoop b start value cnt 0

def bitmapAny (b : Bitmap) (start cnt : Nat) : Except Panic Bool := bitmapContains b start cnt true

def bitmapNone (b : Bitmap) (start cnt : Nat) : Except Panic Bool := do
  return !(← bitmapContains b start cnt true)

def bitmapAll (b : Bitmap) (start cnt : Nat) : Except Panic Bool := do
  return !(← bitmapContains b start cnt false)

def scanLoop (b : Bitmap) (cnt : Nat) (value : Bool) : Nat → Nat → Except Panic Nat
  | 0, _ => return bitmapError
  | n + 1, i => do
    if !(← bitmapContains b i cnt (!value)) then return i
    else scanLoop b cnt value n (i + 1)

def bitmapScan (b : Bitmap) (start cnt : Nat) (value : Bool) : Except Panic Nat := do
  assertThat (start ≤ b.bitCnt) .bitmapScanStart
  if cnt ≤ b.bitCnt then scanLoop b cnt value (b.bitCnt - cnt + 1 - start) start
  else return bitmapError

def bitmapScanAndFlip (b : Bitmap) (start cnt : Nat) (value : Bool) :
    Except Panic (Nat × Bitmap) := do
  let idx ← bitmapScan b start cnt value
  if idx ≠ bitmapError then return (idx, ← bitmapSetMultiple b idx cnt (!value))
  else return (idx, b)

def bitmapCreateInBuf (m : Memory) (bitCnt block blockSize : Nat)
    (h : bitCnt + 31 < 4294967296) : Except Panic Bitmap := do
  assertThat (bitmapBufSize bitCnt ≤ blockSize) .bitmapCreateInBufSize
  bitmapSetAll
    { bitCnt
      bits := Array.ofFn fun i : Fin (elemCnt bitCnt) => .ofNat 32 (m.load (wrap (block + 8 + 4 * i)))
      size_bits := Array.size_ofFn
      bitCnt_lt := h }
    false

lemma bitCnt_lt_of_byteCnt {bitCnt : Nat} (h : bitCnt < 4294967296) (hne : byteCnt bitCnt ≠ 0) :
    bitCnt + 31 < 4294967296 := by
  by_contra hge
  apply hne
  have hwrap : wrap (bitCnt + 32 - 1) = bitCnt + 31 - 4294967296 := by
    simp only [wrap]
    omega
  have hzero : elemCnt bitCnt = 0 := by
    simp only [elemCnt, divRoundUp, elemBits, hwrap]
    omega
  rw [byteCnt, hzero]
  rfl

/-- The two answers of `malloc` are given; `junk` is what the memory for the bits holds. -/
def bitmapCreate (bitCnt : Nat) (hlt : bitCnt < 4294967296) (grantsMap grantsBits : Bool) (junk : Nat → BitVec 32) :
    Except Panic (Option Bitmap) :=
  if grantsMap then
    -- a request for no bytes is refused
    if h : (grantsBits = true ∧ byteCnt bitCnt ≠ 0) ∨ bitCnt = 0 then do
      return some (← bitmapSetAll
        { bitCnt
          bits := Array.ofFn fun i : Fin (elemCnt bitCnt) => junk i
          size_bits := Array.size_ofFn
          bitCnt_lt := h.elim (fun hg => bitCnt_lt_of_byteCnt hlt hg.2) fun hz => by rw [hz]; decide }
        false)
    else return none
  else return none

def Bitmap.bit (b : Bitmap) (i : Nat) : Bool :=
  (b.bits.getD (i / 32) 0).getLsbD (i % 32)

lemma elemCnt_eq (b : Bitmap) : elemCnt b.bitCnt = (b.bitCnt + 31) / 32 := by
  have h := b.bitCnt_lt
  simp only [elemCnt, divRoundUp, elemBits]
  rw [wrap_of_lt (by omega)]
  omega

variable {i j : Nat}

lemma elem_lt (b : Bitmap) (h : i < b.bitCnt) : i / 32 < b.bits.size := by
  rw [b.size_bits, elemCnt_eq]
  omega

lemma getLsbD_bitMask (i k : Nat) (hk : k < 32) :
    (bitMask i).getLsbD k = decide (k = i % 32) := by
  simp only [bitMask, elemBits, BitVec.getLsbD_shiftLeft, BitVec.getLsbD_one]
  by_cases h : k = i % 32
  · simp [h, show i % 32 < 32 by omega]
  · have : k - i % 32 ≠ 0 ∨ k < i % 32 := by omega
    rcases this with h' | h' <;> simp [h, h']

lemma and_bitMask_ne_zero (x : BitVec 32) (i : Nat) :
    ((x &&& bitMask i) != 0) = x.getLsbD (i % 32) := by
  have hi : i % 32 < 32 := by omega
  cases hx : x.getLsbD (i % 32) with
  | false =>
    have : x &&& bitMask i = 0 := by
      apply BitVec.eq_of_getLsbD_eq
      intro k hk
      rw [BitVec.getLsbD_and, getLsbD_bitMask i k hk]
      by_cases h : k = i % 32 <;> simp [h, hx]
    simp [this]
  | true =>
    have : x &&& bitMask i ≠ 0 := by
      intro h
      have := congrArg (fun y => y.getLsbD (i % 32)) h
      simp [hx, getLsbD_bitMask i _ hi] at this
    simpa using this

lemma bit_modify (b : Bitmap) (f : BitVec 32 → BitVec 32) (hj : j < b.bitCnt) :
    ((b.bits.modify (elemIdx i) f).getD (j / 32) 0).getLsbD (j % 32) =
      if i / 32 = j / 32 then (f (b.bits.getD (j / 32) 0)).getLsbD (j % 32) else b.bit j := by
  have h := elem_lt b hj
  simp only [Array.getD, Array.size_modify, h, dif_pos, Bitmap.bit, Array.getInternal_eq_getElem,
    Array.getElem_modify, elemIdx, elemBits]
  split <;> rfl

section Bits

variable (b : Bitmap) (hj : j < b.bitCnt)

include hj

lemma bit_modify_bit (f : BitVec 32 → BitVec 32) (g : Bool → Bool)
    (hf : ∀ x k, k < 32 → (f x).getLsbD k = if k = i % 32 then g (x.getLsbD k) else x.getLsbD k) :
    ((b.bits.modify (elemIdx i) f).getD (j / 32) 0).getLsbD (j % 32) = if j = i then g (b.bit j) else b.bit j := by
  rw [bit_modify b f hj, hf _ _ (by omega)]
  by_cases he : j = i
  · simp [he, Bitmap.bit]
  · by_cases h : i / 32 = j / 32
    · simp [h, he, show j % 32 ≠ i % 32 by omega, Bitmap.bit]
    · simp [h, he]

lemma bit_mark : (bitmapMark b i).bit j = if j = i then true else b.bit j := by
  refine bit_modify_bit b hj _ (fun _ => true) fun x k hk => ?_
  rw [BitVec.getLsbD_or, getLsbD_bitMask i k hk]
  by_cases h : k = i % 32 <;> simp [h]

lemma bit_reset : (bitmapReset b i).bit j = if j = i then false else b.bit j := by
  refine bit_modify_bit b hj _ (fun _ => false) fun x k hk => ?_
  rw [BitVec.getLsbD_and, BitVec.getLsbD_not, getLsbD_bitMask i k hk]
  by_cases h : k = i % 32 <;> simp [h, hk]

lemma bit_flip : (bitmapFlip b i).bit j = if j = i then !b.bit j else b.bit j := by
  refine bit_modify_bit b hj _ (!·) fun x k hk => ?_
  rw [BitVec.getLsbD_xor, getLsbD_bitMask i k hk]
  by_cases h : k = i % 32 <;> simp [h]

end Bits

lemma bitmapTest_eq (b : Bitmap) {idx : Nat} (h : idx < b.bitCnt) :
    bitmapTest b idx = .ok (b.bit idx) := by
  simp only [bitmapTest, assertThat_pos h, bind_ok, and_bitMask_ne_zero]
  rfl

end Pintos.Kernel
