import Pintos.Foundation.Bytes
import Pintos.Kernel.Machine

/-! Copies between regions that may overlap. -/

namespace Pintos.Kernel

open Pintos.Foundation

def moveUp (m : Memory) (dst src : Nat) : Nat → Nat × Memory
  | 0 => (dst, m)
  | size + 1 => moveUp (Function.update m dst (m src)) (wrap (dst + 1)) (wrap (src + 1)) size

def moveDown (m : Memory) (dst src : Nat) : Nat → Nat × Memory
  | 0 => (dst, m)
  | size + 1 =>
    let dst := wrap (dst + 4294967295)
    let src := wrap (src + 4294967295)
    moveDown (Function.update m dst (m src)) dst src size

/-- Answers the value of the pointer `dst` at the end. -/
def memmove (m : Memory) (dst src size : Nat) : Except Panic (Nat × Memory) := do
  assertThat (dst ≠ 0 ∨ size = 0) .memmoveDst
  assertThat (src ≠ 0 ∨ size = 0) .memmoveSrc
  if dst < src then return moveUp m dst src size
  else return moveDown m (wrap (dst + size)) (wrap (src + size)) size

section Loops

variable {m : Memory} {dst src size : Nat}

lemma update_eq_write (m : Memory) (a : Nat) (b : Byte) : Function.update m a b = m.write a [b] := by
  funext x
  rw [Function.update_apply, Memory.write]
  by_cases hx : x = a
  · simp [hx]
  · rw [if_neg hx]
    split
    · rw [List.getD_eq_default _ _ (by simp; omega)]
    · rfl

lemma wrap_add_one (n : Nat) : wrap (wrap n + 1) = wrap (n + 1) := by
  simp only [wrap]
  omega

lemma moveUp_eq (h : dst < src) (hs : src + size ≤ 4294967296) :
    moveUp m dst (wrap src) size = (dst + size, m.write dst (m.read src size)) := by
  induction size generalizing m dst src with
  | zero => rw [moveUp, Memory.read_zero, Memory.write_nil, Nat.add_zero]
  | succ size ih =>
    have hread : (m.write dst [m src]).read (src + 1) size = m.read (src + 1) size :=
      m.read_write_of_apart (.inr (by simp; omega))
    rw [moveUp, wrap_add_one, wrap_of_lt (show dst + 1 < 4294967296 by omega),
      wrap_of_lt (show src < 4294967296 by omega), update_eq_write, ih (by omega) (by omega), hread, Memory.read,
      ← List.singleton_append (l := m.read (src + 1) size),
      Memory.write_append, List.length_singleton, Nat.add_assoc, Nat.add_comm 1]

lemma wrap_pred {n : Nat} (h : n < 4294967296) : wrap (wrap (n + 1) + 4294967295) = n := by
  simp only [wrap]
  omega

lemma moveDown_eq (h : src ≤ dst) (hd : dst + size ≤ 4294967296) (hd' : dst < 4294967296) :
    moveDown m (wrap (dst + size)) (wrap (src + size)) size = (dst, m.write dst (m.read src size)) := by
  induction size generalizing m with
  | zero => rw [moveDown, Memory.read_zero, Memory.write_nil, Nat.add_zero, wrap_of_lt hd']
  | succ size ih =>
    have hread : (m.write (dst + size) [m (src + size)]).read src size = m.read src size :=
      m.read_write_of_apart (.inl (by omega))
    have hlen : (m.read src size).length = size := m.length_read src size
    rw [moveDown, ← Nat.add_assoc, ← Nat.add_assoc]
    simp only [wrap_pred (show dst + size < 4294967296 by omega), wrap_pred (show src + size < 4294967296 by omega)]
    have hrest := ih (m := m.write (dst + size) [m (src + size)]) (by omega)
    rw [wrap_of_lt (by omega), wrap_of_lt (by omega)] at hrest
    have hbelow := m.write_below dst (m.read src size) [m (src + size)]
    rw [hlen] at hbelow
    rw [update_eq_write, hrest, hread, hbelow, Memory.read_add]
    rfl

lemma memmove_eq (hd : dst ≠ 0 ∨ size = 0) (hs : src ≠ 0 ∨ size = 0) (hdst : dst + size ≤ 4294967296)
    (hsrc : src + size ≤ 4294967296) (hd' : dst < 4294967296) (hs' : src < 4294967296) :
    memmove m dst src size = .ok (if dst < src then dst + size else dst, m.write dst (m.read src size)) := by
  rw [memmove, assertThat_pos hd, bind_ok, assertThat_pos hs, bind_ok]
  split
  · next h =>
    have hup : moveUp m dst (wrap src) size = _ := moveUp_eq h hsrc
    rw [wrap_of_lt hs'] at hup
    rw [hup]
    rfl
  · next h =>
    rw [moveDown_eq (by omega) hdst hd']
    rfl

end Loops

def Moves (m : Memory) (dst src size : Nat) : Prop :=
  ∃ m', memmove m dst src size = .ok (dst, m') ∧ m'.read dst size = m.read src size ∧
    ∀ x, x < dst ∨ dst + size ≤ x → m' x = m x

theorem memmove_moves_iff (m : Memory) {dst src size : Nat} (hdst : dst + size ≤ 4294967296)
    (hsrc : src + size ≤ 4294967296) (hd : dst < 4294967296) (hs : src < 4294967296) :
    Moves m dst src size ↔ size = 0 ∨ dst ≠ 0 ∧ src ≠ 0 ∧ src ≤ dst := by
  by_cases hnull : (dst ≠ 0 ∨ size = 0) ∧ (src ≠ 0 ∨ size = 0)
  · have hrun := memmove_eq (m := m) hnull.1 hnull.2 hdst hsrc hd hs
    constructor
    · rintro ⟨m', hrun', _⟩
      have hptr := congrArg Prod.fst (Except.ok.inj (hrun'.symm.trans hrun))
      simp only at hptr
      split at hptr <;> omega
    · intro hc
      refine ⟨m.write dst (m.read src size), ?_, ?_, fun x hx => ?_⟩
      · rw [hrun]
        split
        · rw [show dst + size = dst by omega]
        · rfl
      · exact m.read_write_of_length (m.length_read src size)
      · exact m.write_of_notMem (by rwa [Memory.length_read])
  · refine iff_of_false ?_ (by omega)
    rintro ⟨m', hrun, _⟩
    rw [memmove, assertThat_bind_eq_ok, assertThat_bind_eq_ok] at hrun
    exact hnull ⟨hrun.1, hrun.2.1⟩

theorem memmove_moves_iff_overlap : Moves (fun a => BitVec.ofNat 8 a) 101 100 3 :=
  (memmove_moves_iff _ (by decide) (by decide) (by decide) (by decide)).mpr (.inr (by decide))

theorem memmove_answers_end :
    ∃ m', memmove (fun a => BitVec.ofNat 8 a) 100 101 3 = .ok (103, m') ∧
      ¬ Moves (fun a => BitVec.ofNat 8 a) 100 101 3 := by
  refine ⟨_, rfl, ?_⟩
  rintro ⟨m', hrun, _⟩
  cases congrArg (fun r => r.map Prod.fst) hrun

end Pintos.Kernel
