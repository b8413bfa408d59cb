import Pintos.Foundation.Numerals
import Pintos.Lib.Stdio

/-! The digits of formatted integers. -/

namespace Pintos.Lib

open Pintos.Foundation Pintos.Kernel

def bases : List IntegerBase := [baseD, baseO, baseLowerX, baseUpperX]

lemma baseD_mem : baseD ∈ bases := .head _

lemma baseO_mem : baseO ∈ bases := .tail _ (.head _)

lemma baseLowerX_mem : baseLowerX ∈ bases := .tail _ (.tail _ (.head _))

lemma baseUpperX_mem : baseUpperX ∈ bases := .tail _ (.tail _ (.tail _ (.head _)))

def IntegerBase.digit (b : IntegerBase) (d : Nat) : Byte := b.digits.getD d 0

def significant (b : IntegerBase) (value : Nat) : List Byte := (Nat.digits b.base value).map b.digit

def spaced (b : IntegerBase) (c : Conversion) (cnt : Nat) (ds : List Byte) : List Byte :=
  if c.flags .group then separate b.group (ascii ',') cnt ds else ds

def Conversion.minDigits (c : Conversion) : Nat := (min (if c.precision < 0 then 1 else c.precision) 63).toNat

def leadingZeros (b : IntegerBase) (c : Conversion) (text : List Byte) : Nat :=
  max (c.minDigits - text.length) (if c.flags .pound ∧ b.base = 8 then 1 else 0)

def numeral (value : Nat) (b : IntegerBase) (c : Conversion) : List Byte :=
  let text := spaced b c 0 (significant b value)
  List.replicate (leadingZeros b c text) (ascii '0') ++ text.reverse

section Pushes

variable {b : IntegerBase} {c : Conversion} {buf : List Byte}

lemma push_eq {ch : Byte} (h : buf.length < bufSize) : push buf ch = .ok (ch :: buf) := if_pos h

def digitBytes (b : IntegerBase) (c : Conversion) (cnt : Nat) (d : Byte) : List Byte :=
  if c.flags .group && 0 < cnt && cnt % b.group = 0 then [ascii ',', d] else [d]

lemma spaced_cons (b : IntegerBase) (c : Conversion) (cnt : Nat) (d : Byte) (ds : List Byte) :
    spaced b c cnt (d :: ds) = digitBytes b c cnt d ++ spaced b c (cnt + 1) ds := by
  rw [spaced, spaced, digitBytes]
  cases c.flags .group with
  | false => rfl
  | true => simp [separate]

@[simp] lemma spaced_nil (b : IntegerBase) (c : Conversion) (cnt : Nat) : spaced b c cnt [] = [] := by
  rw [spaced, separate, ite_self]

lemma pushDigit_eq {cnt : Nat} {d : Byte} (h : buf.length + (digitBytes b c cnt d).length ≤ bufSize) :
    (do let buf ← pushComma b c cnt buf; push buf d) = .ok ((digitBytes b c cnt d).reverse ++ buf) := by
  rw [digitBytes] at *
  rw [pushComma]
  split at h
  · next hc =>
    simp only [List.length_cons, List.length_nil] at h
    rw [if_pos hc, if_pos hc, push_eq (by omega)]
    exact push_eq (by rw [List.length_cons]; omega)
  · next hc =>
    simp only [List.length_cons, List.length_nil] at h
    rw [if_neg hc, if_neg hc]
    exact push_eq (by omega)

lemma accumulate_pos {value : Nat} (hpos : 0 < value) (fuel cnt : Nat) :
    accumulate b c (fuel + 1) value cnt buf =
      (do let buf ← pushComma b c cnt buf; push buf (b.digit (value % b.base))) >>=
        accumulate b c fuel (value / b.base) (cnt + 1) := by
  obtain ⟨value, rfl⟩ := Nat.exists_eq_succ_of_ne_zero hpos.ne'
  rw [accumulate, bind_assoc]
  · rfl
  · exact Nat.succ_ne_zero value

lemma significant_pos {value : Nat} (hb : 1 < b.base) (hpos : 0 < value) :
    significant b value = b.digit (value % b.base) :: significant b (value / b.base) := by
  rw [significant, Nat.digits_def' hb hpos]
  rfl

lemma accumulate_eq (hb : 1 < b.base) (fuel value cnt : Nat) (hfuel : (Nat.digits b.base value).length ≤ fuel)
    (hroom : buf.length + (spaced b c cnt (significant b value)).length ≤ bufSize) :
    accumulate b c fuel value cnt buf = .ok ((spaced b c cnt (significant b value)).reverse ++ buf) := by
  induction fuel generalizing value cnt buf with
  | zero =>
    obtain rfl : value = 0 := Nat.digits_eq_nil_iff_eq_zero.mp (List.length_eq_zero_iff.mp (Nat.le_zero.mp hfuel))
    simp [accumulate, significant, pure, Except.pure]
  | succ fuel ih =>
    rcases Nat.eq_zero_or_pos value with rfl | hpos
    · simp [accumulate, significant, pure, Except.pure]
    · rw [Nat.digits_def' hb hpos, List.length_cons] at hfuel
      rw [significant_pos hb hpos, spaced_cons, List.length_append] at hroom
      rw [accumulate_pos hpos, pushDigit_eq (by omega), significant_pos hb hpos, spaced_cons]
      refine (ih _ _ (Nat.le_of_succ_le_succ hfuel) ?_).trans ?_
      · rw [List.length_append, List.length_reverse]
        omega
      · rw [List.reverse_append, List.append_assoc]

lemma zeroLoop_eq (precision : Int) (fuel : Nat) (hlen : buf.length < bufSize) (hfuel : bufSize ≤ buf.length + fuel) :
    zeroLoop fuel precision buf =
      .ok (List.replicate ((min precision 63).toNat - buf.length) (ascii '0') ++ buf) := by
  induction fuel generalizing buf with
  | zero => omega
  | succ fuel ih =>
    rw [zeroLoop]
    split
    · next h =>
      rw [bufSize] at *
      rw [push_eq hlen]
      refine (ih (by rw [List.length_cons]; omega) (by rw [List.length_cons]; omega)).trans ?_
      have hcnt : (min precision 63).toNat - buf.length = (min precision 63).toNat - (ascii '0' :: buf).length + 1 := by
        rw [List.length_cons]
        omega
      rw [hcnt, List.replicate_succ', List.append_assoc]
      rfl
    · next h =>
      rw [bufSize] at *
      have hcnt : (min precision 63).toNat - buf.length = 0 := by omega
      rw [hcnt]
      rfl

end Pushes

section Bases

variable {b : IntegerBase} {c : Conversion} {value : Nat} (hb : b ∈ bases)

include hb

lemma one_lt_base : 1 < b.base := by
  revert b
  decide

lemma group_pos : 0 < b.group := by
  revert b
  decide

lemma digit_ne_comma : ∀ d < b.base, b.digit d ≠ ascii ',' := by
  revert b
  decide

lemma digit_ne_zero : ∀ d < b.base, d ≠ 0 → b.digit d ≠ ascii '0' := by
  revert b
  decide

lemma comma_notMem_significant : ascii ',' ∉ significant b value := by
  rw [significant, List.mem_map]
  rintro ⟨d, hd, heq⟩
  exact digit_ne_comma hb d (Nat.digits_lt_base (one_lt_base hb) hd) heq

omit hb in
lemma getLast?_spaced (b : IntegerBase) (c : Conversion) (ds : List Byte) :
    (spaced b c 0 ds).getLast? = ds.getLast? := by
  rw [spaced]
  split
  · exact getLast?_separate 0 ds
  · rfl

lemma getLast?_significant : (significant b value).getLast? ≠ some (ascii '0') := by
  rw [significant, List.getLast?_map]
  intro h
  obtain ⟨d, hd, heq⟩ := Option.map_eq_some_iff.mp h
  have hlt : d < b.base := Nat.digits_lt_base (one_lt_base hb) (List.mem_of_getLast? hd)
  refine digit_ne_zero hb d hlt ?_ heq
  have hne : Nat.digits b.base value ≠ [] := fun hnil => by
    rw [hnil] at hd
    contradiction
  obtain rfl := Option.some.inj ((List.getLast?_eq_some_getLast hne).symm.trans hd)
  exact Nat.getLast_digit_ne_zero b.base (Nat.digits_ne_nil_iff_ne_zero.mp hne)

lemma length_digits_le (hv : value < 2 ^ 64) : (Nat.digits b.base value).length ≤ 22 := by
  have hbase : 8 ≤ b.base := by
    revert b
    decide
  refine (Nat.digits_length_le_iff (one_lt_base hb) value).mpr ?_
  calc value < 2 ^ 64 := hv
    _ ≤ 8 ^ 22 := by decide
    _ ≤ b.base ^ 22 := Nat.pow_le_pow_left hbase 22

lemma length_spaced_le (hv : value < 2 ^ 64) : (spaced b c 0 (significant b value)).length ≤ 29 := by
  have hgroup : b.group = 3 ∨ b.group = 4 := by
    revert b
    decide
  have hlen : (significant b value).length ≤ 22 := by
    rw [significant, List.length_map]
    exact length_digits_le hb hv
  rw [spaced]
  split
  · have hgrouped : Grouped b.group (ascii ',') _ _ := grouped_separate (group_pos hb) (significant b value)
    have hle := hgrouped.length_le
    rcases hgroup with h | h <;> rw [h] at hle ⊢ <;> omega
  · omega

omit hb in
lemma pushOctalZero_eq {text : List Byte} {k : Nat} (htext : text.getLast? ≠ some (ascii '0'))
    (hroom : k + text.length < bufSize) :
    pushOctalZero b c (List.replicate k (ascii '0') ++ text.reverse) =
      .ok (List.replicate (max k (if c.flags .pound ∧ b.base = 8 then 1 else 0)) (ascii '0') ++ text.reverse) := by
  have hhead : (List.replicate k (ascii '0') ++ text.reverse).head? ≠ some (ascii '0') ↔ k = 0 := by
    cases k with
    | zero => simpa using htext
    | succ k => simp [List.replicate_succ]
  rw [pushOctalZero]
  split
  · next h =>
    obtain rfl := hhead.mp h.2.2
    rw [if_pos ⟨h.1, h.2.1⟩, push_eq (by simpa using hroom)]
    rfl
  · next h =>
    rw [hhead] at h
    have hk : max k (if c.flags .pound ∧ b.base = 8 then 1 else 0) = k := by
      split
      · next hp =>
        have hpos : k ≠ 0 := fun hz => h ⟨hp.1, hp.2, hz⟩
        omega
      · omega
    rw [hk]
    rfl

lemma integerDigits_eq (hv : value < 2 ^ 64) (c : Conversion) :
    integerDigits value b c = .ok (numeral value b c) := by
  have hlen := length_spaced_le (c := c) hb hv
  have hdigits := length_digits_le hb hv
  have hmin : c.minDigits ≤ 63 := by
    rw [Conversion.minDigits]
    omega
  have hroom : ([] : List Byte).length + (spaced b c 0 (significant b value)).length ≤ bufSize := by
    rw [bufSize, List.length_nil]
    omega
  have hlast : (spaced b c 0 (significant b value)).getLast? ≠ some (ascii '0') := by
    rw [getLast?_spaced]
    exact getLast?_significant hb
  have hshort : (spaced b c 0 (significant b value)).reverse.length < bufSize := by
    rw [bufSize, List.length_reverse]
    omega
  rw [integerDigits, accumulate_eq (one_lt_base hb) bufSize value 0 (by rw [bufSize]; omega) hroom, bind_ok,
    List.append_nil, zeroLoop_eq _ bufSize hshort (Nat.le_add_left _ _), bind_ok, List.length_reverse]
  exact pushOctalZero_eq hlast (by rw [bufSize, ← Conversion.minDigits]; omega)

lemma filter_spaced : (spaced b c 0 (significant b value)).filter (· ≠ ascii ',') = significant b value := by
  have hcomma : ascii ',' ∉ significant b value := comma_notMem_significant hb
  rw [spaced]
  split
  · exact (grouped_separate (group_pos hb) _).filter_eq hcomma
  · exact List.filter_eq_self.mpr fun x hx => decide_eq_true (ne_of_mem_of_not_mem hx hcomma)

def Denotes (b : IntegerBase) (text : List Byte) (value : Nat) : Prop :=
  ∃ ds : List Nat, (∀ d ∈ ds, d < b.base) ∧ text.filter (· ≠ ascii ',') = ds.map b.digit ∧
    Nat.ofDigits b.base ds.reverse = value

lemma denotes_numeral (c : Conversion) (value : Nat) : Denotes b (numeral value b c) value := by
  have hzero : b.digit 0 = ascii '0' := by
    revert b
    decide
  have hne : (ascii '0' : Byte) ≠ ascii ',' := by decide
  refine ⟨List.replicate (leadingZeros b c (spaced b c 0 (significant b value))) 0 ++ (Nat.digits b.base value).reverse,
    fun d hd => ?_, ?_, ?_⟩
  · have hbase := one_lt_base hb
    rcases List.mem_append.mp hd with hd | hd
    · rw [(List.mem_replicate.mp hd).2]
      omega
    · exact Nat.digits_lt_base hbase (List.mem_reverse.mp hd)
  · rw [numeral, List.filter_append, List.filter_reverse, filter_spaced hb, significant, List.map_append,
      List.map_replicate, List.map_reverse, hzero]
    simp [hne]
  · rw [List.reverse_append, List.reverse_reverse, List.reverse_replicate, Nat.ofDigits_append_replicate_zero,
      Nat.ofDigits_digits]

omit hb in
lemma minDigits_le_length (value : Nat) (b : IntegerBase) (c : Conversion) :
    c.minDigits ≤ (numeral value b c).length := by
  rw [numeral, List.length_append, List.length_replicate, List.length_reverse, leadingZeros]
  omega

lemma length_numeral_le (hv : value < 2 ^ 64) (c : Conversion) : (numeral value b c).length ≤ 63 := by
  have hlen := length_spaced_le (c := c) hb hv
  have hmin : c.minDigits ≤ 63 := by
    rw [Conversion.minDigits]
    omega
  rw [numeral, List.length_append, List.length_replicate, List.length_reverse, leadingZeros]
  split <;> omega

end Bases

theorem format_integer_digits (value : BitVec 64) {b : IntegerBase} (hb : b ∈ bases) (c : Conversion)
    (isSigned negative : Bool) : ∃ lead zeros text trail,
      let digits := List.replicate zeros (ascii '0') ++ text.reverse
      integerDigits value.toNat b c = .ok digits ∧
      formatInteger value.toNat isSigned negative b c = .ok (lead ++ digits ++ trail) ∧
      min c.precision 63 ≤ digits.length ∧ Denotes b digits value.toNat ∧
      if c.flags .group then Grouped b.group (ascii ',') (significant b value.toNat) text
      else text = significant b value.toNat := by
  have hrun := integerDigits_eq hb value.isLt c
  have hmin := minDigits_le_length value.toNat b c
  have hformat : ∃ lead trail,
      formatInteger value.toNat isSigned negative b c = .ok (lead ++ numeral value.toNat b c ++ trail) := by
    rw [formatInteger, hrun]
    exact ⟨_, _, rfl⟩
  obtain ⟨lead, trail, hformat⟩ := hformat
  refine ⟨lead, _, _, trail, hrun, hformat, ?_, denotes_numeral hb c value.toNat, ?_⟩
  · rw [Conversion.minDigits] at hmin
    change min c.precision 63 ≤ ((numeral value.toNat b c).length : Int)
    split at hmin <;> omega
  · rw [spaced]
    split
    · exact grouped_separate (group_pos hb) _
    · rfl

theorem format_integer_digits_octal : ∃ lead digits trail,
    integerDigits (2 ^ 64 - 1) baseO ⟨fun _ => true, 80, 70, .int⟩ = .ok digits ∧
      formatInteger (2 ^ 64 - 1) false false baseO ⟨fun _ => true, 80, 70, .int⟩ = .ok (lead ++ digits ++ trail) ∧
      63 ≤ digits.length ∧ Denotes baseO digits (2 ^ 64 - 1) := by
  obtain ⟨lead, zeros, text, trail, hrun, hformat, hlen, hvalue, -⟩ :=
    format_integer_digits (BitVec.allOnes 64) baseO_mem ⟨fun _ => true, 80, 70, .int⟩ false false
  exact ⟨lead, _, trail, hrun, hformat, Int.ofNat_le.mp hlen, hvalue⟩

end Pintos.Lib
