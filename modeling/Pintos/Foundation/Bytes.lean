import Pintos.Foundation.ByteMemory
import Mathlib.Data.List.GetD

/-! Runs of consecutive bytes of a memory as lists, and words as lists of bytes. -/

namespace Pintos.Foundation

abbrev Byte := BitVec 8

instance : LawfulBEq Byte := inferInstance

def overlay (xs : List Byte) (k : Nat) (bs : List Byte) : List Byte :=
  xs.take k ++ bs ++ xs.drop (k + bs.length)

def word (v : Nat) : List Byte :=
  [.ofNat 8 v, .ofNat 8 (v / 256), .ofNat 8 (v / 65536), .ofNat 8 (v / 16777216)]

def wordOf (bs : List Byte) : Nat :=
  (bs.getD 0 0).toNat + 256 * (bs.getD 1 0).toNat + 65536 * (bs.getD 2 0).toNat +
    16777216 * (bs.getD 3 0).toNat

@[simp] lemma length_word (v : Nat) : (word v).length = 4 := rfl

lemma wordOf_word_append {v : Nat} (h : v < 4294967296) (bs : List Byte) :
    wordOf (word v ++ bs) = v := by
  simp [wordOf, word]
  omega

lemma wordOf_lt (bs : List Byte) : wordOf bs < 4294967296 := by
  have h0 := (bs.getD 0 0).isLt
  have h1 := (bs.getD 1 0).isLt
  have h2 := (bs.getD 2 0).isLt
  have h3 := (bs.getD 3 0).isLt
  rw [wordOf]
  omega

variable {bs xs : List Byte} {k : Nat}

@[simp] lemma length_overlay (h : k + bs.length ≤ xs.length) :
    (overlay xs k bs).length = xs.length := by
  simp [overlay]
  omega

lemma overlay_nil (xs : List Byte) (k : Nat) : overlay xs k [] = xs := by
  simp [overlay]

lemma getElem?_overlay (h : k + bs.length ≤ xs.length) (i : Nat) :
    (overlay xs k bs)[i]? =
      if k ≤ i ∧ i < k + bs.length then bs[i - k]? else xs[i]? := by
  rw [overlay, List.append_assoc]
  by_cases hk : i < k
  · rw [List.getElem?_append_left (by simp; omega), List.getElem?_take, if_pos hk, if_neg (by omega)]
  · rw [List.getElem?_append_right (by simp; omega), List.length_take, Nat.min_eq_left (by omega)]
    by_cases hi : i < k + bs.length
    · rw [List.getElem?_append_left (by omega), if_pos (by omega)]
    · rw [List.getElem?_append_right (by omega), List.getElem?_drop, if_neg (by omega)]
      congr 1
      omega

lemma overlay_append {cs : List Byte} (h : k + bs.length + cs.length ≤ xs.length) :
    overlay xs k (bs ++ cs) = overlay (overlay xs k bs) (k + bs.length) cs := by
  apply List.ext_getElem?
  intro i
  rw [getElem?_overlay (by simp; omega), getElem?_overlay (by rw [length_overlay (by omega)]; omega),
    getElem?_overlay (by omega)]
  by_cases hc : k + bs.length ≤ i ∧ i < k + bs.length + cs.length
  · rw [if_pos hc, if_pos (by simp; omega), List.getElem?_append_right (by omega)]
    congr 1
    omega
  · rw [if_neg hc]
    by_cases hb : k ≤ i ∧ i < k + bs.length
    · rw [if_pos hb, if_pos (by simp; omega), List.getElem?_append_left (by omega)]
    · rw [if_neg hb, if_neg (by simp; omega)]

namespace Memory

def read (m : Memory) (a : Nat) : Nat → List Byte
  | 0 => []
  | n + 1 => m a :: read m (a + 1) n

def write (m : Memory) (a : Nat) (bs : List Byte) : Memory := fun x =>
  if a ≤ x then bs.getD (x - a) (m x) else m x

@[simp] lemma read_zero (m : Memory) (a : Nat) : m.read a 0 = [] := rfl

@[simp] lemma length_read (m : Memory) (a n : Nat) : (m.read a n).length = n := by
  induction n generalizing a with
  | zero => rfl
  | succ n ih => rw [read, List.length_cons, ih]

variable {a i n : Nat}

lemma getElem?_read (m : Memory) (h : i < n) : (m.read a n)[i]? = some (m (a + i)) := by
  induction n generalizing a i with
  | zero => omega
  | succ n ih =>
    cases i with
    | zero => rfl
    | succ i => rw [read, List.getElem?_cons_succ, ih (by omega), Nat.add_right_comm, Nat.add_assoc]

lemma getElem_read (m : Memory) (h : i < (m.read a n).length) :
    (m.read a n)[i] = m (a + i) := by
  rw [← Option.some_inj, ← List.getElem?_eq_getElem, getElem?_read m (by simpa using h)]

lemma read_congr {m m' : Memory} (h : ∀ x, a ≤ x → x < a + n → m x = m' x) :
    m.read a n = m'.read a n := by
  induction n generalizing a with
  | zero => rfl
  | succ n ih =>
    rw [read, read, h a (by omega) (by omega), ih fun x hx hx' => h x (by omega) (by omega)]

lemma read_add (m : Memory) (a n k : Nat) : m.read a (n + k) = m.read a n ++ m.read (a + n) k := by
  induction n generalizing a with
  | zero => rw [Nat.zero_add, read_zero, List.nil_append, Nat.add_zero]
  | succ n ih => rw [Nat.succ_add, read, read, ih, List.cons_append, Nat.add_right_comm, Nat.add_assoc]

lemma drop_read (m : Memory) (a n k : Nat) : (m.read a n).drop k = m.read (a + k) (n - k) := by
  by_cases h : k ≤ n
  · obtain ⟨r, rfl⟩ := Nat.exists_eq_add_of_le h
    rw [read_add, List.drop_left' (by simp), Nat.add_sub_cancel_left]
  · rw [List.drop_eq_nil_of_le (by simp; omega), Nat.sub_eq_zero_of_le (by omega), read_zero]

lemma take_read (m : Memory) (a n k : Nat) : (m.read a n).take k = m.read a (min k n) := by
  apply List.ext_getElem (by simp)
  intro i h h'
  rw [List.getElem_take, getElem_read, getElem_read]

lemma write_of_notMem (m : Memory) {x : Nat} (h : x < a ∨ a + bs.length ≤ x) :
    m.write a bs x = m x := by
  rw [write]
  by_cases hx : a ≤ x
  · rw [if_pos hx, List.getD_eq_default _ _ (by omega)]
  · rw [if_neg hx]

lemma write_of_mem (m : Memory) (h : i < bs.length) :
    m.write a bs (a + i) = bs[i] := by
  rw [write, if_pos (by omega), Nat.add_sub_cancel_left, List.getD_eq_getElem _ _ h]

@[simp] lemma write_nil (m : Memory) (a : Nat) : m.write a [] = m := by
  funext x
  exact m.write_of_notMem (by simp; omega)

lemma read_write_of_apart (m : Memory) {b : Nat}
    (h : b + n ≤ a ∨ a + bs.length ≤ b) : (m.write a bs).read b n = m.read b n :=
  read_congr fun x hx hx' => m.write_of_notMem (by omega)

lemma read_write (m : Memory) (a : Nat) (bs : List Byte) : (m.write a bs).read a bs.length = bs := by
  apply List.ext_getElem (by simp)
  intro i h h'
  rw [getElem_read]
  exact m.write_of_mem h'

lemma read_write_of_length (m : Memory) (h : bs.length = n) :
    (m.write a bs).read a n = bs := by
  rw [← h, read_write]

lemma write_append (m : Memory) (a : Nat) (bs cs : List Byte) :
    m.write a (bs ++ cs) = (m.write a bs).write (a + bs.length) cs := by
  funext x
  by_cases hb : a ≤ x ∧ x < a + bs.length
  · obtain ⟨i, rfl⟩ := Nat.exists_eq_add_of_le hb.1
    have hi : i < bs.length := by omega
    rw [write_of_mem m (by simp; omega), write_of_notMem _ (by omega), write_of_mem m hi,
      List.getElem_append_left hi]
  · by_cases hc : a + bs.length ≤ x ∧ x < a + bs.length + cs.length
    · obtain ⟨i, rfl⟩ := Nat.exists_eq_add_of_le hc.1
      have hi : i < cs.length := by omega
      rw [write_of_mem _ hi, Nat.add_assoc, write_of_mem m (by simp; omega),
        List.getElem_append_right (by omega)]
      congr 1
      omega
    · rw [write_of_notMem _ (by simp; omega), write_of_notMem _ (by omega),
        write_of_notMem _ (by omega)]

lemma write_below (m : Memory) (a : Nat) (bs cs : List Byte) :
    (m.write (a + bs.length) cs).write a bs = m.write a (bs ++ cs) := by
  rw [write_append]
  funext x
  by_cases hb : a ≤ x ∧ x < a + bs.length
  · obtain ⟨i, rfl⟩ := Nat.exists_eq_add_of_le hb.1
    have hi : i < bs.length := by omega
    rw [write_of_mem _ hi, write_of_notMem _ (.inl (by omega)), write_of_mem _ hi]
  · rw [write_of_notMem _ (by omega), write, write, write_of_notMem m (by omega)]

lemma write_overwrite (m : Memory) (a : Nat) {cs ds : List Byte} (h : cs.length ≤ ds.length) :
    (m.write a (bs ++ cs)).write (a + bs.length) ds = m.write a (bs ++ ds) := by
  rw [write_append, write_append]
  funext x
  by_cases hx : a + bs.length ≤ x ∧ x < a + bs.length + ds.length
  · obtain ⟨i, rfl⟩ := Nat.exists_eq_add_of_le hx.1
    rw [write_of_mem _ (by omega), write_of_mem _ (by omega)]
  · rw [write_of_notMem _ (by omega), write_of_notMem _ (by omega), write_of_notMem (m.write a bs) (by omega)]

lemma getElem?_read_write (m : Memory) (a : Nat) {b : Nat} (bs : List Byte) (hi : i < n) :
    ((m.write a bs).read b n)[i]? =
      if a ≤ b + i ∧ b + i < a + bs.length then bs[b + i - a]? else (m.read b n)[i]? := by
  rw [getElem?_read _ hi, getElem?_read _ hi]
  by_cases h : a ≤ b + i ∧ b + i < a + bs.length
  · obtain ⟨k, hk⟩ := Nat.exists_eq_add_of_le h.1
    rw [if_pos h, hk, write_of_mem m (by omega), Nat.add_sub_cancel_left, List.getElem?_eq_getElem]
  · rw [if_neg h, write_of_notMem m (by omega)]

lemma read_write_within (m : Memory) (h : k + bs.length ≤ n) :
    (m.write (a + k) bs).read a n = overlay (m.read a n) k bs := by
  obtain ⟨r, rfl⟩ := Nat.exists_eq_add_of_le h
  rw [read_add, read_add, read_write, read_write_of_apart m (.inl le_rfl), ← Nat.add_assoc,
    read_write_of_apart m (.inr le_rfl), overlay, take_read, drop_read, Nat.min_eq_left (by omega)]
  congr 2
  · omega
  · omega

lemma write_overlay (m : Memory) (h : k + bs.length ≤ n) :
    m.write a (overlay (m.read a n) k bs) = m.write (a + k) bs := by
  funext x
  have hlen : (overlay (m.read a n) k bs).length = n := by
    rw [length_overlay (by simpa using h), length_read]
  by_cases hx : a ≤ x ∧ x < a + n
  · obtain ⟨i, rfl⟩ := Nat.exists_eq_add_of_le hx.1
    have hi : i < n := by omega
    rw [write_of_mem m (by omega), ← Option.some_inj, ← List.getElem?_eq_getElem,
      ← read_write_within m h, getElem?_read _ hi]
  · rw [write_of_notMem m (by omega), write_of_notMem m (by omega)]

lemma wordOf_read (m : Memory) (h : 4 ≤ n) : wordOf (m.read a n) = m.load a := by
  have hb : ∀ i < 4, (m.read a n).getD i 0 = m (a + i) := by
    intro i hi
    rw [List.getD_eq_getElem?_getD, getElem?_read m (by omega)]
    rfl
  rw [wordOf, hb 0 (by omega), hb 1 (by omega), hb 2 (by omega), hb 3 (by omega)]
  rfl

lemma load_write_word (m : Memory) (a : Nat) (front bs : List Byte) {v : Nat} (hv : v < 4294967296) :
    (m.write a (front ++ (word v ++ bs))).load (a + front.length) = v := by
  rw [← wordOf_read _ (Nat.le_refl 4), write_append, write_append,
    read_write_of_apart _ (.inl (by simp)), read_write_of_length _ (length_word v)]
  simpa using wordOf_word_append hv []

lemma read_write_append (m : Memory) (a : Nat) (front : List Byte)
    (h : k + n ≤ bs.length) :
    (m.write a (front ++ bs)).read (a + front.length + k) n = (bs.drop k).take n := by
  have hread := drop_read ((m.write a front).write (a + front.length) bs) (a + front.length) bs.length k
  rw [read_write] at hread
  rw [write_append, hread, take_read, Nat.min_eq_left (by omega)]

/-- Only blocks of `size` bytes that satisfy `P` differ. -/
def Confined (size : Nat) (m m' : Memory) (P : Nat → Prop) : Prop := ∀ a, ¬ P (a / size) → m' a = m a

namespace Confined

variable {size : Nat} {m m' m'' : Memory} {P Q : Nat → Prop}

lemma refl (size : Nat) (m : Memory) (P : Nat → Prop) : Confined size m m P := fun _ _ => rfl

lemma trans (h : Confined size m m' P) (h' : Confined size m' m'' P) : Confined size m m'' P :=
  fun a ha => (h' a ha).trans (h a ha)

lemma mono (h : Confined size m m' P) (hpq : ∀ x, P x → Q x) : Confined size m m' Q :=
  fun a ha => h a fun hp => ha (hpq _ hp)

lemma of_write {b : Nat} {bs : List Byte} (h : ∀ a, b ≤ a → a < b + bs.length → P (a / size)) :
    Confined size m (m.write b bs) P := by
  intro a ha
  apply m.write_of_notMem
  by_contra hn
  exact ha (h a (by omega) (by omega))

lemma read_eq (h : Confined size m m' P) {a n : Nat}
    (hn : ∀ x, a ≤ x → x < a + n → ¬ P (x / size)) : m'.read a n = m.read a n :=
  read_congr fun x hx hx' => h x (hn x hx hx')

end Confined

end Memory

end Pintos.Foundation
