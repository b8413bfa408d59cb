import Mathlib.Data.Nat.Basic
import Mathlib.Logic.Function.Basic
import Mathlib.Tactic.Ring

/-! Byte-addressed memory with little-endian 32-bit words. -/

namespace Pintos.Foundation

abbrev Memory := Nat → BitVec 8

namespace Memory

def load (m : Memory) (a : Nat) : Nat :=
  (m a).toNat + 256 * (m (a + 1)).toNat + 65536 * (m (a + 2)).toNat + 16777216 * (m (a + 3)).toNat

def store (m : Memory) (a v : Nat) : Memory := fun x =>
  if x = a then .ofNat 8 v
  else if x = a + 1 then .ofNat 8 (v / 256)
  else if x = a + 2 then .ofNat 8 (v / 65536)
  else if x = a + 3 then .ofNat 8 (v / 16777216)
  else m x

variable {a v : Nat}

lemma load_congr {m m' : Memory} (h : ∀ x, a ≤ x → x < a + 4 → m x = m' x) :
    m.load a = m'.load a := by
  simp only [load, h a (by omega) (by omega), h (a + 1) (by omega) (by omega),
    h (a + 2) (by omega) (by omega), h (a + 3) (by omega) (by omega)]

lemma load_lt (m : Memory) (a : Nat) : m.load a < 4294967296 := by
  have h0 := (m a).isLt
  have h1 := (m (a + 1)).isLt
  have h2 := (m (a + 2)).isLt
  have h3 := (m (a + 3)).isLt
  rw [load]
  omega

lemma store_of_notMem (m : Memory) {x : Nat} (h : x < a ∨ a + 4 ≤ x) : m.store a v x = m x := by
  have h0 : x ≠ a := by omega
  have h1 : x ≠ a + 1 := by omega
  have h2 : x ≠ a + 2 := by omega
  have h3 : x ≠ a + 3 := by omega
  simp only [store, h0, h1, h2, h3, if_false]

lemma load_store (m : Memory) (hv : v < 4294967296) : (m.store a v).load a = v := by
  simp [load, store]
  omega

lemma load_store_of_disjoint (m : Memory) {b : Nat} (h : b + 4 ≤ a ∨ a + 4 ≤ b) :
    (m.store a v).load b = m.load b :=
  load_congr fun x hx hx' => m.store_of_notMem (by omega)

end Memory

end Pintos.Foundation
