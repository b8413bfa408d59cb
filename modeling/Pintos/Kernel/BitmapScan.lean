import Pintos.Kernel.Bitmap

/-! What the loops of the bitmap code compute on the represented booleans. -/

namespace Pintos.Kernel

open Pintos.Foundation

def Bitmap.Fits (b : Bitmap) (value : Bool) (cnt i : Nat) : Prop :=
  i + cnt ≤ b.bitCnt ∧ ∀ j < cnt, b.bit (i + j) = value

def Bitmap.Sets (b c : Bitmap) (start cnt : Nat) (value : Bool) : Prop :=
  c.bitCnt = b.bitCnt ∧
    ∀ k < b.bitCnt, c.bit k = if start ≤ k ∧ k < start + cnt then value else b.bit k

def Bitmap.ClearFrom (b : Bitmap) (k : Nat) : Prop := ∀ j, k ≤ j → j < b.bitCnt → b.bit j = false

namespace Bitmap.ClearFrom

variable {b c : Bitmap} {k x cnt : Nat}

lemma fits (h : b.ClearFrom k) {i : Nat} (hk : k ≤ i) (hi : i + cnt ≤ b.bitCnt) : b.Fits false cnt i :=
  ⟨hi, fun j hj => h (i + j) (by omega) (by omega)⟩

lemma sets (h : b.ClearFrom k) (hset : b.Sets c x cnt true) (hfirst : ∀ y < x, ¬ b.Fits false cnt y) :
    c.ClearFrom (k + cnt) := by
  intro j hj hlt
  have hlt' : j < b.bitCnt := hset.1 ▸ hlt
  have hx : x ≤ k := by
    by_contra hn
    exact hfirst k (by omega) (h.fits le_rfl (by omega))
  rw [hset.2 j hlt', if_neg (by omega)]
  exact h j (by omega) hlt'

end Bitmap.ClearFrom

lemma bitmapSet_eq (b : Bitmap) {i : Nat} (value : Bool) (h : i < b.bitCnt) :
    ∃ c, bitmapSet b i value = .ok c ∧ b.Sets c i 1 value := by
  refine ⟨_, by simp only [bitmapSet, assertThat_pos h, bind_ok]; rfl, ?_, ?_⟩
  · cases value <;> rfl
  · intro k hk
    have he : (i ≤ k ∧ k < i + 1) ↔ k = i := by omega
    simp only [he]
    cases value with
    | false => exact bit_reset b hk
    | true => exact bit_mark b hk

lemma setLoop_eq (start : Nat) (value : Bool) (n i : Nat) (b : Bitmap)
    (h : start + i + n ≤ b.bitCnt) :
    ∃ c, setLoop start value n i b = .ok c ∧ b.Sets c (start + i) n value := by
  induction n generalizing i b with
  | zero => exact ⟨b, rfl, rfl, fun k _ => by rw [if_neg (by omega)]⟩
  | succ n ih =>
    have hb := b.bitCnt_lt
    obtain ⟨c, hc, hcnt, hbit⟩ := bitmapSet_eq b value (i := start + i) (by omega)
    obtain ⟨d, hd, hcnt', hbit'⟩ := ih (i + 1) c (by omega)
    refine ⟨d, ?_, hcnt'.trans hcnt, ?_⟩
    · rw [setLoop, wrap_of_lt (by omega), hc, bind_ok, hd]
    · intro k hk
      rw [hbit' k (by omega), hbit k hk]
      by_cases h1 : start + i ≤ k ∧ k < start + i + 1
      · simp [h1, show k < start + i + (n + 1) by omega]
      · rw [if_neg h1]
        congr 1
        exact propext ⟨by omega, by omega⟩

lemma bitmapSetMultiple_eq (b : Bitmap) (start cnt : Nat) (value : Bool)
    (h : start + cnt ≤ b.bitCnt) :
    ∃ c, bitmapSetMultiple b start cnt value = .ok c ∧ b.Sets c start cnt value := by
  have hb := b.bitCnt_lt
  obtain ⟨c, hc, hs⟩ := setLoop_eq start value cnt 0 b (by omega)
  refine ⟨c, ?_, hs⟩
  rw [bitmapSetMultiple, assertThat_pos (by omega), bind_ok, wrap_of_lt (by omega),
    assertThat_pos h, bind_ok, hc]

lemma containsLoop_eq (b : Bitmap) (start : Nat) (value : Bool) (n i : Nat)
    (h : start + i + n ≤ b.bitCnt) :
    ∃ r, containsLoop b start value n i = .ok r ∧
      (r = true ↔ ∃ j, i ≤ j ∧ j < i + n ∧ b.bit (start + j) = value) := by
  induction n generalizing i with
  | zero => exact ⟨false, rfl, by simp; omega⟩
  | succ n ih =>
    have hb := b.bitCnt_lt
    rw [containsLoop, wrap_of_lt (by omega), bitmapTest_eq b (by omega), bind_ok]
    by_cases hv : b.bit (start + i) = value
    · exact ⟨true, by simp [hv]; rfl, by simpa using ⟨i, le_rfl, by omega, hv⟩⟩
    · obtain ⟨r, hr, hiff⟩ := ih (i + 1) (by omega)
      refine ⟨r, by simpa [hv] using hr, hiff.trans ⟨?_, ?_⟩⟩
      · rintro ⟨j, hj, hj', hbit⟩
        exact ⟨j, by omega, by omega, hbit⟩
      · rintro ⟨j, hj, hj', hbit⟩
        have : j ≠ i := by rintro rfl; exact hv hbit
        exact ⟨j, by omega, by omega, hbit⟩

lemma bitmapContains_eq (b : Bitmap) (start cnt : Nat) (value : Bool)
    (h : start + cnt ≤ b.bitCnt) :
    ∃ r, bitmapContains b start cnt value = .ok r ∧
      (r = true ↔ ∃ j < cnt, b.bit (start + j) = value) := by
  have hb := b.bitCnt_lt
  obtain ⟨r, hr, hiff⟩ := containsLoop_eq b start value cnt 0 (by omega)
  refine ⟨r, ?_, by simpa using hiff⟩
  rw [bitmapContains, assertThat_pos (by omega), bind_ok, wrap_of_lt (by omega),
    assertThat_pos h, bind_ok, hr]

lemma bitmapContains_not_iff (b : Bitmap) (start cnt : Nat) (value : Bool)
    (h : start + cnt ≤ b.bitCnt) :
    ∃ r, bitmapContains b start cnt (!value) = .ok r ∧ (r = false ↔ b.Fits value cnt start) := by
  obtain ⟨r, hr, hiff⟩ := bitmapContains_eq b start cnt (!value) h
  refine ⟨r, hr, ?_⟩
  rw [← Bool.not_eq_true, hiff, Bitmap.Fits]
  refine ⟨fun hn => ⟨h, fun j hj => ?_⟩, fun hf ⟨j, hj, hbit⟩ => ?_⟩
  · by_contra hne
    exact hn ⟨j, hj, by cases hb : b.bit (start + j) <;> cases value <;> simp_all⟩
  · rw [hf.2 j hj] at hbit
    cases value <;> simp at hbit

lemma bitmapAll_eq (b : Bitmap) (start cnt : Nat) (h : start + cnt ≤ b.bitCnt) :
    ∃ r, bitmapAll b start cnt = .ok r ∧ (r = true ↔ b.Fits true cnt start) := by
  obtain ⟨r, hr, hiff⟩ := bitmapContains_not_iff b start cnt true h
  refine ⟨!r, ?_, by simpa using hiff⟩
  rw [bitmapAll, show (false : Bool) = !true from rfl, hr, bind_ok]
  rfl

/-- `idx` is the least start of a group at or after `start`, or `bitmapError` when there is none. -/
def Bitmap.Scans (b : Bitmap) (start cnt : Nat) (value : Bool) (idx : Nat) : Prop :=
  (idx = bitmapError ∧ ∀ k, start ≤ k → ¬ b.Fits value cnt k) ∨
    (idx ≠ bitmapError ∧ start ≤ idx ∧ b.Fits value cnt idx ∧
      ∀ k, start ≤ k → k < idx → ¬ b.Fits value cnt k)

lemma scanLoop_eq (b : Bitmap) (cnt : Nat) (value : Bool) (n i : Nat) (hc : cnt ≤ b.bitCnt)
    (hn : n = b.bitCnt - cnt + 1 - i) :
    ∃ idx, scanLoop b cnt value n i = .ok idx ∧ b.Scans i cnt value idx := by
  induction n generalizing i with
  | zero => exact ⟨bitmapError, rfl, .inl ⟨rfl, fun k hk hf => by have := hf.1; omega⟩⟩
  | succ n ih =>
    have hb := b.bitCnt_lt
    obtain ⟨r, hr, hiff⟩ := bitmapContains_not_iff b i cnt value (by omega)
    rw [scanLoop, hr, bind_ok]
    cases r with
    | false =>
      refine ⟨i, rfl, .inr ⟨?_, le_rfl, hiff.mp rfl, fun k hk hk' => by omega⟩⟩
      simp only [bitmapError]
      omega
    | true =>
      have hi : ¬ b.Fits value cnt i := fun hf => by simpa using hiff.mpr hf
      have hskip : ∀ k, i ≤ k → ¬ (i + 1 ≤ k) → ¬ b.Fits value cnt k := by
        intro k hk hk'
        rwa [show k = i by omega]
      obtain ⟨idx, hidx, hs⟩ := ih (i + 1) (by omega)
      refine ⟨idx, hidx, ?_⟩
      rcases hs with ⟨he, hnone⟩ | ⟨he, hle, hf, hleast⟩
      · refine .inl ⟨he, fun k hk => ?_⟩
        by_cases hk' : i + 1 ≤ k
        · exact hnone k hk'
        · exact hskip k hk hk'
      · refine .inr ⟨he, by omega, hf, fun k hk hlt => ?_⟩
        by_cases hk' : i + 1 ≤ k
        · exact hleast k hk' hlt
        · exact hskip k hk hk'

variable {start : Nat}

lemma bitmapScan_eq (b : Bitmap) (cnt : Nat) (value : Bool) (h : start ≤ b.bitCnt) :
    ∃ idx, bitmapScan b start cnt value = .ok idx ∧ b.Scans start cnt value idx := by
  rw [bitmapScan, assertThat_pos h, bind_ok]
  by_cases hc : cnt ≤ b.bitCnt
  · rw [if_pos hc]
    exact scanLoop_eq b cnt value _ start hc rfl
  · rw [if_neg hc]
    exact ⟨bitmapError, rfl, .inl ⟨rfl, fun k _ hf => by have := hf.1; omega⟩⟩

lemma bitmapScan_panics (b : Bitmap) (cnt : Nat) (value : Bool)
    (h : ¬ start ≤ b.bitCnt) : bitmapScan b start cnt value = .error (.assertion .bitmapScanStart) := by
  rw [bitmapScan, assertThat_neg h, bind_error]

lemma bitmapScanAndFlip_eq (b : Bitmap) (cnt : Nat) (value : Bool)
    (h : start ≤ b.bitCnt) :
    ∃ idx c, bitmapScanAndFlip b start cnt value = .ok (idx, c) ∧ b.Scans start cnt value idx ∧
      (idx = bitmapError → c = b) ∧ (idx ≠ bitmapError → b.Sets c idx cnt (!value)) := by
  obtain ⟨idx, hidx, hs⟩ := bitmapScan_eq b cnt value h
  rw [bitmapScanAndFlip, hidx, bind_ok]
  by_cases he : idx = bitmapError
  · exact ⟨idx, b, by simp [he]; rfl, hs, fun _ => rfl, fun hne => (hne he).elim⟩
  · obtain ⟨_, _, hf, _⟩ := hs.resolve_left fun hh => he hh.1
    obtain ⟨c, hc, hset⟩ := bitmapSetMultiple_eq b idx cnt (!value) hf.1
    exact ⟨idx, c, by simp [he, hc], hs, fun hh => (he hh).elim, fun _ => hset⟩

lemma bitmapScanAndFlip_panics (b : Bitmap) (cnt : Nat) (value : Bool)
    (h : ¬ start ≤ b.bitCnt) :
    bitmapScanAndFlip b start cnt value = .error (.assertion .bitmapScanStart) := by
  rw [bitmapScanAndFlip, bitmapScan_panics b cnt value h, bind_error]

lemma bitmapCreateInBuf_eq (m : Memory) {bitCnt blockSize : Nat} (block : Nat)
    (h : bitCnt + 31 < 4294967296) (hs : bitmapBufSize bitCnt ≤ blockSize) :
    ∃ b, bitmapCreateInBuf m bitCnt block blockSize h = .ok b ∧ b.bitCnt = bitCnt ∧
      ∀ k < bitCnt, b.bit k = false := by
  rw [bitmapCreateInBuf, assertThat_pos hs, bind_ok, bitmapSetAll]
  obtain ⟨c, hc, hcnt, hbit⟩ := bitmapSetMultiple_eq
    { bitCnt
      bits := Array.ofFn fun i : Fin (elemCnt bitCnt) => .ofNat 32 (m.load (wrap (block + 8 + 4 * i)))
      size_bits := Array.size_ofFn
      bitCnt_lt := h } 0 bitCnt false (by simp)
  refine ⟨c, hc, hcnt, fun k hk => ?_⟩
  rw [hbit k hk, if_pos (by simpa using hk)]

end Pintos.Kernel
