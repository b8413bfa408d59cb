import Mathlib.Algebra.Order.Ring.Nat
import Mathlib.Tactic.Ring

/-! Quotients estimated with a shortened divisor. -/

namespace Pintos.Foundation

variable {n d w e q : Nat}

lemma div_estimate (hw : 0 < w) (hwd : w ≤ d) (hde : d < w + e) (hn : n * (e - 1) ≤ w * d) :
    n / d ≤ n / w ∧ n / w ≤ n / d + 1 := by
  have hd : 0 < d := by omega
  refine ⟨Nat.div_le_div_left hwd hw, ?_⟩
  have hq : n / w * w ≤ n := Nat.div_mul_le_self n w
  have hexcess : n / w * (d - w) ≤ d := by
    apply Nat.le_of_mul_le_mul_left _ hw
    calc w * (n / w * (d - w)) = n / w * w * (d - w) := by ring
      _ ≤ n * (d - w) := Nat.mul_le_mul_right _ hq
      _ ≤ n * (e - 1) := Nat.mul_le_mul_left _ (by omega)
      _ ≤ w * d := hn
  have hsplit : n / w * d = n / w * w + n / w * (d - w) := by
    rw [← Nat.mul_add, Nat.add_sub_cancel' hwd]
  rw [← Nat.add_div_right n hd, Nat.le_div_iff_mul_le hd]
  omega

lemma div_correct (hd : 0 < d) (hq : 0 < q) (hle : n / d ≤ q) (hge : q ≤ n / d + 1) :
    (if n - (q - 1) * d < d then q - 1 else q) = n / d := by
  rcases Nat.eq_or_lt_of_le hle with rfl | hlt
  · rw [if_neg]
    have hmul : n / d * d ≤ n := Nat.div_mul_le_self n d
    have hstep : n / d * d = (n / d - 1) * d + d := by rw [← Nat.succ_mul]; congr 1; omega
    omega
  · obtain rfl : q = n / d + 1 := by omega
    have hmod := Nat.mod_lt n hd
    have hsplit := Nat.div_add_mod' n d
    rw [Nat.add_sub_cancel, if_pos (by omega)]

lemma div_by_words (b n₁ n₀ : Nat) (hd : 0 < d) :
    (b * n₁ + n₀) / d = (b * (n₁ % d) + n₀) / d + b * (n₁ / d) := by
  have hsplit : b * n₁ + n₀ = b * (n₁ % d) + n₀ + d * (b * (n₁ / d)) := by
    conv_lhs => rw [← Nat.mod_add_div n₁ d]
    ring
  rw [hsplit, Nat.add_mul_div_left _ _ hd]

lemma div_words_lt {b r n₀ : Nat} (hr : r < d) (hn₀ : n₀ < b) : (b * r + n₀) / d < b := by
  rw [Nat.div_lt_iff_lt_mul (by omega)]
  calc b * r + n₀ < b * r + b := by omega
    _ = b * (r + 1) := by ring
    _ ≤ b * d := Nat.mul_le_mul_left _ hr

section Normalized

variable {k s : Nat}

lemma high_word_bounds (hs : s < k) (hlow : 2 ^ (k + k - 1) ≤ d * 2 ^ s) :
    2 ^ (k - 1) ≤ d * 2 ^ s / 2 ^ k ∧ d * 2 ^ s / 2 ^ k * 2 ^ (k - s) ≤ d ∧
      d < d * 2 ^ s / 2 ^ k * 2 ^ (k - s) + 2 ^ (k - s) := by
  have hk : 0 < 2 ^ k := Nat.two_pow_pos k
  have hp : 0 < 2 ^ s := Nat.two_pow_pos s
  have hsplit : 2 ^ (k - s) * 2 ^ s = 2 ^ k := by rw [← Nat.pow_add, Nat.sub_add_cancel hs.le]
  refine ⟨?_, ?_, ?_⟩
  · rw [Nat.le_div_iff_mul_le hk, ← Nat.pow_add]
    convert hlow using 2
    omega
  · apply Nat.le_of_mul_le_mul_right _ hp
    rw [Nat.mul_assoc, hsplit]
    exact Nat.div_mul_le_self _ _
  · apply Nat.lt_of_mul_lt_mul_right (a := 2 ^ s)
    rw [Nat.add_mul, Nat.mul_assoc, hsplit, Nat.mul_comm _ (2 ^ k)]
    exact Nat.lt_mul_div_succ (d * 2 ^ s) hk

lemma div_estimate_normalized (hs : s < k) (hlow : 2 ^ (k + k - 1) ≤ d * 2 ^ s) (hn : n < 2 ^ (k + k)) :
    n / d ≤ n / 2 / (d * 2 ^ s / 2 ^ k) / 2 ^ (k - 1 - s) ∧
      n / 2 / (d * 2 ^ s / 2 ^ k) / 2 ^ (k - 1 - s) ≤ n / d + 1 := by
  obtain ⟨hv, hle, hlt⟩ := high_word_bounds hs hlow
  generalize d * 2 ^ s / 2 ^ k = v at *
  have hhalf : 2 * 2 ^ (k - 1 - s) = 2 ^ (k - s) := by
    rw [← Nat.pow_succ']
    congr 1
    omega
  have hdiv : n / 2 / v / 2 ^ (k - 1 - s) = n / (v * 2 ^ (k - s)) := by
    rw [Nat.div_div_eq_div_mul, Nat.div_div_eq_div_mul, ← hhalf]
    congr 1
    ring
  rw [hdiv]
  have hvpos : 0 < v := (Nat.two_pow_pos _).trans_le hv
  have hepos := Nat.two_pow_pos (k - s)
  generalize 2 ^ (k - s) = e at *
  apply div_estimate (Nat.mul_pos hvpos hepos) hle hlt
  have hfour : 4 * (e - 1) ≤ e * e := by
    obtain ⟨f, rfl⟩ : ∃ f, e = f + 1 := ⟨e - 1, by omega⟩
    rw [Nat.add_sub_cancel]
    simpa [sq] using four_mul_le_sq_add f 1
  have hpow : 2 ^ (k + k) = 2 ^ (k - 1) * 2 ^ (k - 1) * 4 := by
    rw [← Nat.pow_add, show (4 : Nat) = 2 ^ 2 from rfl, ← Nat.pow_add]
    congr 1
    omega
  calc n * (e - 1) ≤ 2 ^ (k - 1) * 2 ^ (k - 1) * 4 * (e - 1) := Nat.mul_le_mul_right _ (hpow ▸ hn.le)
    _ = 2 ^ (k - 1) * 2 ^ (k - 1) * (4 * (e - 1)) := Nat.mul_assoc _ _ _
    _ ≤ v * v * (e * e) := Nat.mul_le_mul (Nat.mul_le_mul hv hv) hfour
    _ = v * e * (v * e) := by ring
    _ ≤ v * e * d := Nat.mul_le_mul_left _ hle

end Normalized

end Pintos.Foundation
