import Mathlib.Logic.Equiv.Basic
import Pintos.Foundation.Bytes

/-! The pseudo-random number generator, and the cipher of the test programs that it agrees with. -/

namespace Pintos.Lib

open Pintos.Foundation Function

structure Prng where
  s : Nat → Byte
  i : Byte
  j : Byte
  inited : Bool

structure Arc4 where
  s : Nat → Byte
  i : Byte
  j : Byte

def swapByte (s : Nat → Byte) (a b : Nat) : Nat → Byte := update (update s a (s b)) b (s a)

def randomSchedule (seed : BitVec 32) : Nat → (Nat → Byte) × Byte
  | 0 => (fun k => .ofNat 8 k, 0)
  | i + 1 =>
    let (s, j) := randomSchedule seed i
    let j := j + (s i + (word seed.toNat).getD (i % 4) 0)
    (swapByte s i j.toNat, j)

def randomInit (seed : BitVec 32) : Prng := ⟨(randomSchedule seed 256).1, 0, 0, true⟩

def randomLoop (x : Prng) : Nat → List Byte × Prng
  | 0 => ([], x)
  | size + 1 =>
    let i := x.i + 1
    let j := x.j + x.s i.toNat
    let s := swapByte x.s i.toNat j.toNat
    let k := s i.toNat + s j.toNat
    let (bytes, y) := randomLoop { x with s := s, i := i, j := j } size
    (s k.toNat :: bytes, y)

def randomBytes (x : Prng) (size : Nat) : List Byte × Prng :=
  randomLoop (if x.inited then x else randomInit 0) size

def requests (x : Prng) : List Nat → List (List Byte) × Prng
  | [] => ([], x)
  | size :: sizes =>
    let (bytes, y) := randomBytes x size
    let (rest, z) := requests y sizes
    (bytes :: rest, z)

/-- The state array, `j` and `key_idx` after so many turns of the loop in `arc4_init`. -/
def arc4Schedule (key : List Byte) (size : Nat) : Nat → (Nat → Byte) × Nat × Nat
  | 0 => (fun k => .ofNat 8 k, 0, 0)
  | i + 1 =>
    let (s, j, keyIdx) := arc4Schedule key size i
    let j := (j + (s i).toNat + (key.getD keyIdx 0).toNat) &&& 255
    (swapByte s i j, j, if keyIdx + 1 ≥ size then 0 else keyIdx + 1)

def arc4Init (key : List Byte) (size : Nat) : Arc4 := ⟨(arc4Schedule key size 256).1, 0, 0⟩

def arc4Crypt (x : Arc4) : List Byte → List Byte × Arc4
  | [] => ([], x)
  | b :: buf =>
    let i := x.i + 1
    let j := x.j + x.s i.toNat
    let s := swapByte x.s i.toNat j.toNat
    let k := ((s i.toNat).toNat + (s j.toNat).toNat) &&& 255
    let (bytes, y) := arc4Crypt ⟨s, i, j⟩ buf
    ((b ^^^ s k) :: bytes, y)

lemma and_255 (n : Nat) : n &&& 255 = n % 256 := Nat.and_two_pow_sub_one_eq_mod n 8

lemma masked_sum (a b : Byte) : (a.toNat + b.toNat) &&& 255 = (a + b).toNat := by
  rw [and_255, BitVec.toNat_add]

lemma arc4Schedule_eq (seed : BitVec 32) (n : Nat) :
    arc4Schedule (word seed.toNat) 4 n =
      ((randomSchedule seed n).1, (randomSchedule seed n).2.toNat, n % 4) := by
  induction n with
  | zero => rfl
  | succ n ih =>
    have hidx : (if n % 4 + 1 ≥ 4 then 0 else n % 4 + 1) = (n + 1) % 4 := by
      split <;> omega
    simp only [arc4Schedule, ih, randomSchedule, hidx, and_255, BitVec.toNat_add, Nat.add_mod_mod,
      Nat.add_assoc]

lemma arc4Init_eq (seed : BitVec 32) :
    arc4Init (word seed.toNat) 4 = ⟨(randomInit seed).s, (randomInit seed).i, (randomInit seed).j⟩ := by
  rw [arc4Init, arc4Schedule_eq]
  rfl

lemma arc4Crypt_zeros (x : Prng) (size : Nat) :
    arc4Crypt ⟨x.s, x.i, x.j⟩ (List.replicate size 0) =
      ((randomLoop x size).1, ⟨(randomLoop x size).2.s, (randomLoop x size).2.i, (randomLoop x size).2.j⟩) := by
  induction size generalizing x with
  | zero => rfl
  | succ size ih =>
    have hrest := fun s i j => ih { x with s := s, i := i, j := j }
    have hzero : ∀ b : Byte, 0 ^^^ b = b := fun _ => BitVec.zero_xor
    simp only [List.replicate_succ, arc4Crypt, randomLoop, hrest, masked_sum, hzero]

lemma randomLoop_inited (x : Prng) (size : Nat) : (randomLoop x size).2.inited = x.inited := by
  induction size generalizing x with
  | zero => rfl
  | succ size ih => exact ih _

lemma randomLoop_add (x : Prng) (m n : Nat) :
    randomLoop x (m + n) = ((randomLoop x m).1 ++ (randomLoop (randomLoop x m).2 n).1,
      (randomLoop (randomLoop x m).2 n).2) := by
  induction m generalizing x with
  | zero => simp [randomLoop]
  | succ m ih => simp only [Nat.succ_add, randomLoop, ih, List.cons_append]

/-- Only the total of the sizes matters. -/
lemma requests_eq {x : Prng} (h : x.inited = true) (sizes : List Nat) :
    ((requests x sizes).1.flatten, (requests x sizes).2) = randomLoop x sizes.sum := by
  induction sizes generalizing x with
  | nil => rfl
  | cons size sizes ih =>
    have hrun : randomBytes x size = randomLoop x size := by rw [randomBytes, if_pos h]
    have hrest := ih ((randomLoop_inited x size).trans h)
    rw [List.sum_cons, randomLoop_add, ← hrest]
    simp only [requests, hrun, List.flatten_cons]

def Permutes (s : Nat → Byte) : Prop := Bijective fun k : Byte => s k.toNat

lemma Permutes.swapByte {s : Nat → Byte} (h : Permutes s) (a b : Byte) :
    Permutes (swapByte s a.toNat b.toNat) := by
  have hswap : (fun k : Byte => Lib.swapByte s a.toNat b.toNat k.toNat) =
      (fun k : Byte => s k.toNat) ∘ Equiv.swap a b := by
    funext k
    simp only [Lib.swapByte, update_apply, BitVec.toNat_inj, comp_apply, Equiv.swap_apply_def]
    split
    · next hk => subst hk; split <;> simp_all
    · split <;> rfl
  rw [Permutes, hswap]
  exact h.comp (Equiv.swap a b).bijective

lemma permutes_randomSchedule (seed : BitVec 32) {n : Nat} (hn : n ≤ 256) :
    Permutes (randomSchedule seed n).1 := by
  induction n with
  | zero =>
    have hid : (fun k : Byte => BitVec.ofNat 8 k.toNat) = id := by
      funext k
      simp
    rw [randomSchedule, Permutes, hid]
    exact bijective_id
  | succ n ih =>
    have hstep := (ih (by omega)).swapByte (.ofNat 8 n)
    rw [BitVec.toNat_ofNat, Nat.mod_eq_of_lt (by omega)] at hstep
    exact hstep _

lemma permutes_randomLoop {x : Prng} (h : Permutes x.s) (size : Nat) : Permutes (randomLoop x size).2.s := by
  induction size generalizing x with
  | zero => exact h
  | succ size ih => exact ih (h.swapByte _ _)

theorem random_bytes_arc4 (seed : BitVec 32) (sizes : List Nat) :
    (requests (randomInit seed) sizes).1.flatten =
        (arc4Crypt (arc4Init (word seed.toNat) 4) (List.replicate sizes.sum 0)).1 ∧
      (∀ n ≤ 256, Permutes (randomSchedule seed n).1) ∧
      Permutes (requests (randomInit seed) sizes).2.s := by
  have hrun := requests_eq (x := randomInit seed) rfl sizes
  have hinit : Permutes (randomInit seed).s := by
    simpa only [randomInit] using permutes_randomSchedule seed (Nat.le_refl 256)
  rw [arc4Init_eq, arc4Crypt_zeros, ← hrun]
  refine ⟨rfl, fun n hn => permutes_randomSchedule seed hn, ?_⟩
  rw [congrArg Prod.snd hrun]
  exact permutes_randomLoop hinit sizes.sum

end Pintos.Lib
