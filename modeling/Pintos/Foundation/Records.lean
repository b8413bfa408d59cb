import Mathlib.Data.List.TakeWhile
import Pintos.Foundation.Bytes

/-! Records of consecutive fields, fields padded with zeros, and strings that end at a zero. -/

namespace Pintos.Foundation

def field (bs : List Byte) (ofs len : Nat) : List Byte := (bs.drop ofs).take len

def padded (n : Nat) (bs : List Byte) : List Byte := bs.take n ++ List.replicate (n - bs.length) 0

def cstring (bs : List Byte) : List Byte := bs.takeWhile fun b => b ≠ 0

section Fields

variable {fs : List (List Byte)} {f : List Byte} {i : Nat}

lemma field_flatten (h : fs[i]? = some f) :
    field fs.flatten ((fs.take i).map List.length).sum f.length = f := by
  induction fs generalizing i with
  | nil => simp at h
  | cons g fs ih =>
    cases i with
    | zero =>
      obtain rfl : g = f := by simpa using h
      simp [field]
    | succ i =>
      have hrest := ih (by simpa using h)
      rw [field] at hrest ⊢
      rw [List.take_succ_cons, List.map_cons, List.sum_cons, List.flatten_cons, List.drop_append,
        List.drop_eq_nil_of_le (by omega), List.nil_append, Nat.add_sub_cancel_left]
      exact hrest

lemma field_flatten_of_eq {ofs len : Nat} (h : fs[i]? = some f)
    (hofs : ((fs.take i).map List.length).sum = ofs) (hlen : f.length = len) :
    field fs.flatten ofs len = f := by
  rw [← hofs, ← hlen]
  exact field_flatten h

end Fields

variable {len n ofs : Nat}

lemma length_field {bs : List Byte} (h : ofs + len ≤ bs.length) :
    (field bs ofs len).length = len := by
  simp [field]
  omega

lemma getD_field (bs : List Byte) {k : Nat} (h : k < len) (d : Byte) :
    (field bs ofs len).getD k d = bs.getD (ofs + k) d := by
  simp only [field, List.getD_eq_getElem?_getD, List.getElem?_take, if_pos h, List.getElem?_drop]

lemma field_take (bs : List Byte) (h : ofs + len ≤ n) :
    field (bs.take n) ofs len = field bs ofs len := by
  simp only [field, List.drop_take, List.take_take]
  congr 1
  omega

@[simp] lemma length_padded (n : Nat) (bs : List Byte) : (padded n bs).length = n := by
  simp [padded]
  omega

lemma padded_of_le {b : List Byte} (h : b.length ≤ n) :
    padded n b = b ++ List.replicate (n - b.length) 0 := by
  rw [padded, List.take_of_length_le h]

section Blocks

variable {size : Nat}

def blockCnt (size n : Nat) : Nat := (n + (size - 1)) / size

def blocked (size : Nat) (bs : List Byte) : List Byte := padded (size * blockCnt size bs.length) bs

@[simp] lemma length_blocked (size : Nat) (bs : List Byte) :
    (blocked size bs).length = size * blockCnt size bs.length := length_padded _ _

lemma blockCnt_zero (h : 0 < size) : blockCnt size 0 = 0 := Nat.div_eq_of_lt (by omega)

lemma blockCnt_step (h : 0 < size) {n : Nat} (hn : 0 < n) : blockCnt size n = blockCnt size (n - size) + 1 := by
  rw [blockCnt, blockCnt, ← Nat.add_div_right _ h]
  by_cases hle : size ≤ n
  · congr 1
    omega
  · have hlow : (n - size + (size - 1) + size) / size = 1 := by
      rw [Nat.sub_eq_zero_of_le (by omega), Nat.zero_add, Nat.add_div_right _ h, Nat.div_eq_of_lt (by omega)]
    rw [hlow]
    exact Nat.div_eq_of_lt_le (by omega) (by omega)

lemma blocked_nil (h : 0 < size) : blocked size [] = [] := by
  rw [blocked, List.length_nil, blockCnt_zero h]
  rfl

lemma blocked_step (h : 0 < size) {bs : List Byte} (hbs : bs ≠ []) :
    blocked size bs = padded size (bs.take size) ++ blocked size (bs.drop size) := by
  have hstep := blockCnt_step h (List.length_pos_iff.mpr hbs)
  have hmul : size * blockCnt size bs.length = size * blockCnt size (bs.length - size) + size := by
    rw [hstep, Nat.mul_succ]
  rw [blocked, blocked, List.length_drop, hmul]
  by_cases hle : size ≤ bs.length
  · rw [padded_of_le (b := bs.take size) (by simp), List.length_take, Nat.min_eq_left hle, Nat.sub_self,
      List.replicate_zero, List.append_nil, padded, padded, Nat.add_comm, List.take_add, List.append_assoc,
      List.length_drop]
    congr 3
    omega
  · have hz : blockCnt size (bs.length - size) = 0 := by
      rw [Nat.sub_eq_zero_of_le (by omega), blockCnt_zero h]
    rw [hz, Nat.mul_zero, Nat.zero_add, List.take_of_length_le (by omega), List.drop_eq_nil_of_le (by omega)]
    exact (List.append_nil _).symm

lemma blocked_append (h : 0 < size) {xs ys : List Byte} (hxs : xs ≠ [])
    (hfull : xs.length = size ∨ xs.length < size ∧ ys = []) :
    blocked size (xs ++ ys) = padded size xs ++ blocked size ys := by
  rw [blocked_step h (List.append_ne_nil_of_left_ne_nil hxs _)]
  rcases hfull with hlen | ⟨hlen, rfl⟩
  · rw [List.take_left' hlen, List.drop_left' hlen]
  · rw [List.append_nil, List.take_of_length_le (by omega), List.drop_eq_nil_of_le (by omega)]

end Blocks

lemma cstring_append_zero {s : List Byte} (h : 0 ∉ s) (rest : List Byte) :
    cstring (s ++ 0 :: rest) = s := by
  induction s with
  | nil => simp [cstring]
  | cons b s ih =>
    obtain ⟨hb, hs⟩ := List.ne_and_not_mem_of_not_mem_cons h
    rw [cstring, List.cons_append, List.takeWhile_cons_of_pos (by simpa using Ne.symm hb)]
    exact congrArg (b :: ·) (ih hs)

lemma cstring_padded {s : List Byte} (h : 0 ∉ s) (hlen : s.length < n) :
    cstring (padded n s) = s := by
  obtain ⟨k, hk⟩ : ∃ k, n - s.length = k + 1 := ⟨n - s.length - 1, by omega⟩
  rw [padded_of_le (Nat.le_of_lt hlen), hk, List.replicate_succ]
  exact cstring_append_zero h _

end Pintos.Foundation
