import Mathlib.Data.BitVec
import Pintos.Foundation.Division

/-! Division of 64-bit integers with an instruction that divides by 32-bit ones. -/

namespace Pintos.Lib

open Pintos.Foundation

/-- No quotient stands for a divide error. -/
def divl (n : BitVec 64) (d : BitVec 32) : Option (BitVec 32) :=
  let n1 : BitVec 32 := (n >>> 32).setWidth 32
  let n0 : BitVec 32 := n.setWidth 32
  let q := (4294967296 * n1.toNat + n0.toNat) / d.toNat
  if d = 0#32 ∨ 4294967296 ≤ q then none else some (BitVec.ofNat 32 q)

def nlz (x : BitVec 32) : Nat :=
  let n := 0
  let (n, x) := if x ≤ 0x0000FFFF#32 then (n + 16, x <<< 16) else (n, x)
  let (n, x) := if x ≤ 0x00FFFFFF#32 then (n + 8, x <<< 8) else (n, x)
  let (n, x) := if x ≤ 0x0FFFFFFF#32 then (n + 4, x <<< 4) else (n, x)
  let (n, x) := if x ≤ 0x3FFFFFFF#32 then (n + 2, x <<< 2) else (n, x)
  if x ≤ 0x7FFFFFFF#32 then n + 1 else n

def udiv64 (n d : BitVec 64) : Option (BitVec 64) :=
  if d >>> 32 = 0#64 then do
    let b : BitVec 64 := 1#64 <<< 32
    let n1 : BitVec 32 := (n >>> 32).setWidth 32
    let n0 : BitVec 32 := n.setWidth 32
    let d0 : BitVec 32 := d.setWidth 32
    let q ← divl (b * (n1 % d0).setWidth 64 + n0.setWidth 64) d0
    return q.setWidth 64 + b * (n1 / d0).setWidth 64
  else if n < d then return 0#64
  else do
    let d1 : BitVec 32 := (d >>> 32).setWidth 32
    let s := nlz d1
    let q ← divl (n >>> 1) (((d <<< s) >>> 32).setWidth 32)
    let q : BitVec 64 := (q >>> (31 - s)).setWidth 64
    return if n - (q - 1) * d < d then q - 1 else q

def umod64 (n d : BitVec 64) : Option (BitVec 32) := do
  return (n - d * (← udiv64 n d)).setWidth 32

def sdiv64 (n d : BitVec 64) : Option (BitVec 64) := do
  let nAbs := if (0#64).sle n then n else -n
  let dAbs := if (0#64).sle d then d else -d
  let qAbs ← udiv64 nAbs dAbs
  return if n.slt 0#64 = d.slt 0#64 then qAbs else -qAbs

def smod64 (n d : BitVec 64) : Option (BitVec 32) := do
  return (n - d * (← sdiv64 n d)).setWidth 32

def divdi3 (n d : BitVec 64) : Option (BitVec 64) := sdiv64 n d

def moddi3 (n d : BitVec 64) : Option (BitVec 64) := do return (← smod64 n d).signExtend 64

def umoddi3 (n d : BitVec 64) : Option (BitVec 64) := do return (← umod64 n d).setWidth 64

lemma divl_eq {n : BitVec 64} {d : BitVec 32} (hd : 0 < d.toNat) (hq : n.toNat / d.toNat < 4294967296) :
    divl n d = some (BitVec.ofNat 32 (n.toNat / d.toNat)) := by
  have hn := n.isLt
  have hwords : 4294967296 * ((n >>> 32).setWidth 32).toNat + (n.setWidth 32).toNat = n.toNat := by
    simp only [BitVec.toNat_setWidth, BitVec.toNat_ushiftRight, Nat.shiftRight_eq_div_pow]
    omega
  have hne : d ≠ 0#32 := by
    rintro rfl
    exact Nat.lt_irrefl 0 hd
  simp only [divl, hwords]
  rw [if_neg]
  rintro (h | h)
  · exact hne h
  · omega

def Shifted (x : BitVec 32) (lo hi : Nat) : Nat × BitVec 32 → Prop
  | (n, y) => y.toNat = x.toNat * 2 ^ n ∧ lo ≤ y.toNat ∧ n ≤ hi

lemma Shifted.step {x : BitVec 32} {lo hi b k : Nat} {p : Nat × BitVec 32} (h : Shifted x lo hi p)
    (hb : (b + 1) * 2 ^ k = 4294967296) (hlo : b < lo * 2 ^ k) :
    Shifted x (b + 1) (hi + k) (if p.2 ≤ BitVec.ofNat 32 b then (p.1 + k, p.2 <<< k) else p) := by
  obtain ⟨n, y⟩ := p
  obtain ⟨hy, hle, hn⟩ := h
  have hpow := Nat.two_pow_pos k
  have hblt : b < 4294967296 := by
    have := Nat.le_mul_of_pos_right (b + 1) hpow
    omega
  have hof : (BitVec.ofNat 32 b).toNat = b := by rw [BitVec.toNat_ofNat, Nat.mod_eq_of_lt hblt]
  split
  · next hyb =>
    rw [BitVec.le_def, hof] at hyb
    have hlt : y.toNat * 2 ^ k < 4294967296 := by
      rw [← hb]
      exact Nat.mul_lt_mul_of_pos_right (Nat.lt_succ_of_le hyb) hpow
    have hshift : (y <<< k).toNat = y.toNat * 2 ^ k := by
      rw [BitVec.toNat_shiftLeft, Nat.shiftLeft_eq, Nat.mod_eq_of_lt hlt]
    refine ⟨?_, ?_, Nat.add_le_add_right hn k⟩
    · rw [hshift, hy, Nat.pow_add, Nat.mul_assoc]
    · rw [hshift]
      exact hlo.trans_le (Nat.mul_le_mul_right _ hle)
  · next hyb =>
    rw [BitVec.le_def, hof] at hyb
    exact ⟨hy, Nat.lt_of_not_le hyb, Nat.le_add_right_of_le hn⟩

lemma Shifted.last {x y : BitVec 32} {n : Nat} (h : Shifted x 1073741824 30 (n, y)) {s : Nat}
    (hs : s = if y ≤ 0x7FFFFFFF#32 then n + 1 else n) :
    s ≤ 31 ∧ 2147483648 ≤ x.toNat * 2 ^ s ∧ x.toNat * 2 ^ s < 4294967296 := by
  obtain ⟨hy, hle, hn⟩ := h
  have hlt := y.isLt
  by_cases hyb : y ≤ 0x7FFFFFFF#32
  · rw [if_pos hyb] at hs
    rw [BitVec.le_def] at hyb
    change y.toNat ≤ 2147483647 at hyb
    rw [hs, Nat.pow_succ, ← Nat.mul_assoc, ← hy]
    omega
  · rw [if_neg hyb] at hs
    rw [BitVec.le_def] at hyb
    change ¬ y.toNat ≤ 2147483647 at hyb
    rw [hs, ← hy]
    omega

lemma nlz_spec {x : BitVec 32} (hx : x ≠ 0#32) :
    nlz x ≤ 31 ∧ 2147483648 ≤ x.toNat * 2 ^ nlz x ∧ x.toNat * 2 ^ nlz x < 4294967296 := by
  have hpos : 0 < x.toNat := by
    apply Nat.pos_of_ne_zero
    intro h
    exact hx (BitVec.eq_of_toNat_eq h)
  have h₀ : Shifted x 1 0 (0, x) := ⟨by rw [Nat.pow_zero, Nat.mul_one], hpos, le_rfl⟩
  have h₁ := h₀.step (b := 0x0000FFFF) (k := 16) (by decide) (by decide)
  have h₂ := h₁.step (b := 0x00FFFFFF) (k := 8) (by decide) (by decide)
  have h₃ := h₂.step (b := 0x0FFFFFFF) (k := 4) (by decide) (by decide)
  have h₄ := h₃.step (b := 0x3FFFFFFF) (k := 2) (by decide) (by decide)
  exact Shifted.last h₄ rfl

section Unsigned

variable {n d : BitVec 64}

lemma toNat_words (a c : BitVec 32) :
    (1#64 <<< 32 * a.setWidth 64 + c.setWidth 64).toNat = 4294967296 * a.toNat + c.toNat := by
  have ha := a.isLt
  have hc := c.isLt
  have hb : (1#64 <<< 32).toNat = 4294967296 := by decide
  rw [BitVec.toNat_add, BitVec.toNat_mul, hb, BitVec.toNat_setWidth, BitVec.toNat_setWidth]
  omega

lemma toNat_pos {w : Nat} {x : BitVec w} (h : x ≠ 0#w) : 0 < x.toNat := by
  apply Nat.pos_of_ne_zero
  intro hx
  exact h (BitVec.eq_of_toNat_eq (by rw [hx, BitVec.toNat_ofNat, Nat.zero_mod]))

lemma toNat_high (x : BitVec 64) : ((x >>> 32).setWidth 32).toNat = x.toNat / 4294967296 := by
  have hx := x.isLt
  simp only [BitVec.toNat_setWidth, BitVec.toNat_ushiftRight, Nat.shiftRight_eq_div_pow]
  omega

lemma high_eq_zero : d >>> 32 = 0#64 ↔ d.toNat < 4294967296 := by
  rw [← BitVec.toNat_inj, BitVec.toNat_ushiftRight, Nat.shiftRight_eq_div_pow]
  change d.toNat / 4294967296 = 0 ↔ _
  omega

lemma udiv64_small (hd : d ≠ 0#64) (hsmall : d.toNat < 4294967296) : udiv64 n d = some (n / d) := by
  have hn := n.isLt
  have hpos := toNat_pos hd
  have hd0 : (d.setWidth 32).toNat = d.toNat := by
    rw [BitVec.toNat_setWidth, Nat.mod_eq_of_lt hsmall]
  have hn0 : (n.setWidth 32).toNat = n.toNat % 4294967296 := BitVec.toNat_setWidth _ _
  have hn1 := toNat_high n
  have hlow := toNat_words ((n >>> 32).setWidth 32 % d.setWidth 32) (n.setWidth 32)
  rw [BitVec.toNat_umod, hn1, hd0, hn0] at hlow
  have hfits := div_words_lt (Nat.mod_lt (n.toNat / 4294967296) hpos)
    (Nat.mod_lt n.toNat (show 0 < 4294967296 by decide))
  have hdivl := divl_eq (d := d.setWidth 32) (hd0 ▸ hpos) (by rw [hlow, hd0]; exact hfits)
  rw [hlow, hd0] at hdivl
  simp only [udiv64, if_pos (high_eq_zero.mpr hsmall), hdivl, Option.bind_eq_bind, Option.bind_some]
  apply congrArg some
  apply BitVec.eq_of_toNat_eq
  rw [BitVec.add_comm, toNat_words, BitVec.toNat_udiv, hn1, hd0, BitVec.toNat_ofNat, Nat.mod_eq_of_lt hfits,
    BitVec.toNat_udiv, Nat.add_comm, ← div_by_words _ _ _ hpos, Nat.div_add_mod]

lemma toNat_normalized (hlarge : 4294967296 ≤ d.toNat) {s : Nat} (hs : s = nlz ((d >>> 32).setWidth 32)) :
    s ≤ 31 ∧ 2 ^ 63 ≤ d.toNat * 2 ^ s ∧ (d <<< s).toNat = d.toNat * 2 ^ s := by
  have hhigh := toNat_high d
  have hne : (d >>> 32).setWidth 32 ≠ 0#32 := by
    intro h
    rw [h] at hhigh
    change 0 = _ at hhigh
    omega
  obtain ⟨hle, hlow, hlt⟩ := nlz_spec hne
  rw [hhigh, ← hs] at hlow hlt
  rw [← hs] at hle
  have hp : 0 < 2 ^ s := Nat.two_pow_pos s
  have hsplit : 2 ^ (32 - s) * 2 ^ s = 4294967296 := by
    rw [← Nat.pow_add, Nat.sub_add_cancel (by omega)]
  have hword : d.toNat / 4294967296 + 1 ≤ 2 ^ (32 - s) := by
    apply Nat.lt_of_mul_lt_mul_right (a := 2 ^ s)
    rwa [hsplit]
  have hbound : d.toNat < 4294967296 * 2 ^ (32 - s) :=
    (Nat.lt_mul_div_succ _ (by decide)).trans_le (Nat.mul_le_mul_left _ hword)
  refine ⟨hle, ?_, ?_⟩
  · calc 2 ^ 63 = 4294967296 * 2147483648 := by decide
      _ ≤ 4294967296 * (d.toNat / 4294967296 * 2 ^ s) := Nat.mul_le_mul_left _ hlow
      _ = 4294967296 * (d.toNat / 4294967296) * 2 ^ s := (Nat.mul_assoc _ _ _).symm
      _ ≤ d.toNat * 2 ^ s := Nat.mul_le_mul_right _ (Nat.mul_div_le _ _)
  · rw [BitVec.toNat_shiftLeft, Nat.shiftLeft_eq, Nat.mod_eq_of_lt]
    calc d.toNat * 2 ^ s < 4294967296 * 2 ^ (32 - s) * 2 ^ s := Nat.mul_lt_mul_of_pos_right hbound hp
      _ = 2 ^ 64 := by rw [Nat.mul_assoc, hsplit]; decide

lemma corrected_eq {q : BitVec 64} (hd : 0 < d.toNat) (hq : 0 < q.toNat) (hle : n.toNat / d.toNat ≤ q.toNat)
    (hge : q.toNat ≤ n.toNat / d.toNat + 1) : (if n - (q - 1) * d < d then q - 1 else q) = n / d := by
  have hn := n.isLt
  have hq' := q.isLt
  have hpred : (q - 1).toNat = q.toNat - 1 := by
    rw [BitVec.toNat_sub_of_le]
    · rfl
    · exact BitVec.le_def.mpr hq
  have hmul : (q.toNat - 1) * d.toNat ≤ n.toNat :=
    (Nat.mul_le_mul_right _ (show q.toNat - 1 ≤ n.toNat / d.toNat by omega)).trans (Nat.div_mul_le_self _ _)
  have hprod : ((q - 1) * d).toNat = (q.toNat - 1) * d.toNat := by
    rw [BitVec.toNat_mul, hpred, Nat.mod_eq_of_lt (by omega)]
  have hrest : (n - (q - 1) * d).toNat = n.toNat - (q.toNat - 1) * d.toNat := by
    rw [BitVec.toNat_sub_of_le, hprod]
    rw [BitVec.le_def, hprod]
    exact hmul
  have hless : n - (q - 1) * d < d ↔ n.toNat - (q.toNat - 1) * d.toNat < d.toNat := by
    rw [BitVec.lt_def, hrest]
  apply BitVec.eq_of_toNat_eq
  rw [BitVec.toNat_udiv, ← div_correct hd hq hle hge, apply_ite BitVec.toNat, hpred]
  exact if_congr hless rfl rfl

lemma udiv64_large (hlarge : 4294967296 ≤ d.toNat) : udiv64 n d = some (n / d) := by
  have hn := n.isLt
  have hd := d.isLt
  have hdne : ¬ d >>> 32 = 0#64 := fun h => absurd (high_eq_zero.mp h) (by omega)
  by_cases hnd : n < d
  · simp only [udiv64, if_neg hdne, if_pos hnd]
    apply congrArg some
    apply BitVec.eq_of_toNat_eq
    rw [BitVec.toNat_udiv, Nat.div_eq_of_lt (BitVec.lt_def.mp hnd)]
    rfl
  · obtain ⟨hs, hlow, hshift⟩ := toNat_normalized hlarge rfl
    simp only [udiv64, if_neg hdne, if_neg hnd]
    generalize nlz ((d >>> 32).setWidth 32) = s at *
    have hv := toNat_high (d <<< s)
    rw [hshift] at hv
    have hhalf : (n >>> 1).toNat = n.toNat / 2 := BitVec.toNat_ushiftRight _ _
    obtain ⟨hle, hge⟩ := div_estimate_normalized (k := 32) (by omega) hlow hn
    obtain ⟨hvlow, -, -⟩ := high_word_bounds (k := 32) (by omega) hlow
    have hvlow' : 2147483648 ≤ d.toNat * 2 ^ s / 4294967296 := hvlow
    have hfits : n.toNat / 2 / (d.toNat * 2 ^ s / 4294967296) < 4294967296 := by
      rw [Nat.div_lt_iff_lt_mul (by omega)]
      omega
    have hdivl := divl_eq (n := n >>> 1) (d := ((d <<< s) >>> 32).setWidth 32) (by omega)
      (by rw [hv, hhalf]; exact hfits)
    rw [hv, hhalf] at hdivl
    simp only [hdivl, Option.bind_eq_bind, Option.bind_some]
    apply congrArg some
    have hq : ((BitVec.ofNat 32 (n.toNat / 2 / (d.toNat * 2 ^ s / 4294967296)) >>> (31 - s)).setWidth 64).toNat =
        n.toNat / 2 / (d.toNat * 2 ^ s / 2 ^ 32) / 2 ^ (32 - 1 - s) := by
      rw [BitVec.toNat_setWidth_of_le (by decide), BitVec.toNat_ushiftRight, BitVec.toNat_ofNat,
        Nat.mod_eq_of_lt hfits, Nat.shiftRight_eq_div_pow]
      rfl
    have hone : 1 ≤ n.toNat / d.toNat := by
      rw [Nat.le_div_iff_mul_le (by omega), Nat.one_mul]
      exact Nat.le_of_not_lt fun h => hnd (BitVec.lt_def.mpr h)
    rw [← hq] at hle hge
    exact corrected_eq (by omega) (by omega) hle hge

lemma udiv64_eq (n : BitVec 64) (hd : d ≠ 0#64) : udiv64 n d = some (n / d) := by
  by_cases hsmall : d.toNat < 4294967296
  · exact udiv64_small hd hsmall
  · exact udiv64_large (Nat.le_of_not_lt hsmall)

lemma sub_mul_udiv (n d : BitVec 64) : n - d * (n / d) = n % d := by
  have hn := n.isLt
  have hmul : d.toNat * (n.toNat / d.toNat) ≤ n.toNat := Nat.mul_div_le _ _
  have hprod : (d * (n / d)).toNat = d.toNat * (n.toNat / d.toNat) := by
    rw [BitVec.toNat_mul, BitVec.toNat_udiv, Nat.mod_eq_of_lt (by omega)]
  apply BitVec.eq_of_toNat_eq
  rw [BitVec.toNat_sub_of_le (by rw [BitVec.le_def, hprod]; exact hmul), hprod, BitVec.toNat_umod,
    ← Nat.mod_eq_sub_mul_div]

lemma umoddi3_eq (n : BitVec 64) (hd : d ≠ 0#64) : umoddi3 n d = some (((n % d).setWidth 32).setWidth 64) := by
  simp only [umoddi3, umod64, udiv64_eq n hd, Option.bind_eq_bind, Option.bind_some, sub_mul_udiv]
  rfl

end Unsigned

section Signed

variable {n d : BitVec 64}

lemma sdiv64_eq (n : BitVec 64) (hd : d ≠ 0#64) : sdiv64 n d = some (n.sdiv d) := by
  have hneg : -d ≠ 0#64 := fun h => hd (BitVec.neg_eq_zero_iff.mp h)
  have hn : (0#64).sle n = !n.msb := by rw [BitVec.sle_eq_not_slt, BitVec.slt_zero_eq_msb]
  have hd' : (0#64).sle d = !d.msb := by rw [BitVec.sle_eq_not_slt, BitVec.slt_zero_eq_msb]
  simp only [sdiv64, hn, hd', BitVec.slt_zero_eq_msb, BitVec.sdiv_eq]
  cases n.msb <;> cases d.msb <;> simp [udiv64_eq _ hd, udiv64_eq _ hneg]

lemma sub_mul_sdiv (h : n ≠ BitVec.intMin 64 ∨ d ≠ -1#64) : n - d * n.sdiv d = n.srem d := by
  apply BitVec.eq_of_toInt_eq
  rw [BitVec.toInt_sub, BitVec.toInt_mul, BitVec.toInt_sdiv_of_ne_or_ne n d h, Int.sub_bmod_bmod,
    ← Int.tmod_def, ← BitVec.toInt_srem, BitVec.toInt_bmod_cancel]

lemma bmod_eq_self_iff {m : Int} : m.bmod (2 ^ 32) = m ↔ -2147483648 ≤ m ∧ m < 2147483648 := by
  constructor
  · intro h
    rw [← h]
    exact ⟨Int.le_bmod (by decide), Int.bmod_lt (by decide)⟩
  · rintro ⟨hle, hlt⟩
    exact Int.bmod_eq_of_le hle hlt

lemma toInt_low (x : BitVec 64) : (((x.setWidth 32).signExtend 64).toInt = x.toInt.bmod (2 ^ 32)) := by
  have hdvd : 2 ^ 32 ∣ 2 ^ 64 := by decide
  rw [BitVec.toInt_signExtend_of_le (by decide), BitVec.toInt_setWidth, BitVec.toInt_eq_toNat_bmod,
    Int.bmod_bmod_of_dvd hdvd]

lemma moddi3_eq (hd : d ≠ 0#64) (h : n ≠ BitVec.intMin 64 ∨ d ≠ -1#64) :
    moddi3 n d = some (((n.srem d).setWidth 32).signExtend 64) := by
  simp only [moddi3, smod64, sdiv64_eq n hd, Option.bind_eq_bind, Option.bind_some]
  rw [← sub_mul_sdiv h]
  rfl

end Signed

theorem divisions_exact (n d : BitVec 64) (hd : d ≠ 0#64) :
    (∃ q, udiv64 n d = some q ∧ q.toNat = n.toNat / d.toNat) ∧
      (¬ (n = BitVec.intMin 64 ∧ d = -1#64) →
        ∃ q, sdiv64 n d = some q ∧ q.toInt = n.toInt.tdiv d.toInt) := by
  refine ⟨⟨n / d, udiv64_eq n hd, BitVec.toNat_udiv⟩, fun hover => ?_⟩
  rw [not_and_or] at hover
  exact ⟨n.sdiv d, sdiv64_eq n hd, BitVec.toInt_sdiv_of_ne_or_ne n d hover⟩

theorem divisions_exact_extremes :
    (∃ q, udiv64 18446744073709551615#64 4294967296#64 = some q ∧ q.toNat = 4294967295) ∧
      ∃ q, sdiv64 (BitVec.intMin 64) 1#64 = some q ∧ q.toInt = -9223372036854775808 := by
  refine ⟨(divisions_exact _ _ (by decide)).1, ?_⟩
  exact (divisions_exact (BitVec.intMin 64) 1#64 (by decide)).2 (by decide)

theorem remainders_exact_iff (n d : BitVec 64) (hd : d ≠ 0#64) :
    ((∃ r, umoddi3 n d = some r ∧ r.toNat = n.toNat % d.toNat) ↔ n.toNat % d.toNat < 4294967296) ∧
      (¬ (n = BitVec.intMin 64 ∧ d = -1#64) →
        ((∃ q r, divdi3 n d = some q ∧ moddi3 n d = some r ∧ r.toInt = n.toInt.tmod d.toInt ∧
            n.toInt = q.toInt * d.toInt + r.toInt) ↔
          -2147483648 ≤ n.toInt.tmod d.toInt ∧ n.toInt.tmod d.toInt < 2147483648)) := by
  constructor
  · rw [umoddi3_eq n hd]
    have hrem : (((n % d).setWidth 32).setWidth 64).toNat = n.toNat % d.toNat % 4294967296 := by
      rw [BitVec.toNat_setWidth_of_le (by decide), BitVec.toNat_setWidth, BitVec.toNat_umod]
    constructor
    · rintro ⟨r, hr, heq⟩
      cases hr
      rw [← heq, hrem]
      exact Nat.mod_lt _ (by decide)
    · intro hlt
      exact ⟨_, rfl, by rw [hrem, Nat.mod_eq_of_lt hlt]⟩
  · intro hover
    rw [not_and_or] at hover
    rw [divdi3, sdiv64_eq n hd, moddi3_eq hd hover, ← bmod_eq_self_iff]
    have hrem := toInt_low (n.srem d)
    rw [BitVec.toInt_srem] at hrem
    constructor
    · rintro ⟨q, r, -, hr, heq, -⟩
      cases hr
      rw [← hrem, heq]
    · intro hself
      rw [hself] at hrem
      refine ⟨_, _, rfl, rfl, hrem, ?_⟩
      rw [hrem, BitVec.toInt_sdiv_of_ne_or_ne n d hover, Int.tdiv_mul_add_tmod]

theorem remainders_exact_iff_small :
    (∃ r, umoddi3 18446744073709551615#64 10#64 = some r ∧ r.toNat = 5) ∧
      ∃ q r, divdi3 (BitVec.intMin 64) 10#64 = some q ∧ moddi3 (BitVec.intMin 64) 10#64 = some r ∧ r.toInt = -8 ∧
        -9223372036854775808 = q.toInt * 10 + r.toInt := by
  refine ⟨(remainders_exact_iff _ _ (by decide)).1.mpr (by decide), ?_⟩
  exact ((remainders_exact_iff (BitVec.intMin 64) 10#64 (by decide)).2 (by decide)).mpr (by decide)

theorem remainders_cut :
    (umoddi3 4294967296#64 8589934592#64 = some 0#64 ∧ 4294967296 % 8589934592 = 4294967296) ∧
      moddi3 2147483648#64 4294967296#64 = some (-2147483648#64) ∧
        Int.tmod 2147483648 4294967296 = 2147483648 := by
  decide

end Pintos.Lib
