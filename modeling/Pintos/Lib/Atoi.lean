import Pintos.Lib.Vsnprintf

/-! Integers formatted with `snprintf` and read back with `atoi`. -/

namespace Pintos.Lib

open Pintos.Foundation Pintos.Kernel

variable {d : Directive}

section Reading

variable {ds lead trail : List Byte}

def IsBlank (text : List Byte) : Prop := ∀ c ∈ text, c = ascii ' '

lemma isBlank_replicate (n : Nat) : IsBlank (List.replicate n (ascii ' ')) := fun _ h => (List.mem_replicate.mp h).2

lemma IsBlank.stops (h : IsBlank trail) : Stops isdigit trail := by
  intro c hc
  rw [h c (List.mem_of_head? hc)]
  decide

lemma isspace_of_digit {c : Byte} (h : isdigit c = true) : isspace c = false ∧ c ≠ ascii '+' ∧ c ≠ ascii '-' := by
  revert c
  decide

section

variable (hds : ∀ c ∈ ds, isdigit c = true) (htrail : IsBlank trail)

include hds htrail

lemma foldl_takeWhile :
    ((ds ++ trail).takeWhile isdigit).foldl (fun value c => int32 (value * 10 - (c.toNat - 0x30))) 0 =
      int32 (-(decimal ds : Nat)) := by
  rw [htrail.stops.takeWhile_eq hds]
  refine foldl_digits hds (f := fun n => int32 (-n)) (fun n c hc => ?_) 0
  rw [int32, int32, int32, Int.bmod_def, Int.bmod_def, Int.bmod_def]
  omega

omit hds htrail in
lemma atoi_blank (hlead : IsBlank lead) (s : List Byte) : atoi (lead ++ s) = atoi s := by
  have hspace : ∀ c ∈ lead, isspace c = true := fun c hc => by
    rw [hlead c hc]
    decide
  rw [atoi, List.dropWhile_append_of_pos hspace, atoi]

lemma atoi_minus : atoi (ascii '-' :: (ds ++ trail)) = int32 (-(decimal ds : Nat)) := by
  rw [← foldl_takeWhile hds htrail]
  rfl

lemma atoi_plus : atoi (ascii '+' :: (ds ++ trail)) = int32 (-int32 (-(decimal ds : Nat))) := by
  rw [← foldl_takeWhile hds htrail]
  rfl

lemma atoi_digits : atoi (ds ++ trail) = int32 (-int32 (-(decimal ds : Nat))) := by
  cases ds with
  | nil =>
    rw [List.nil_append, ← List.append_nil trail, atoi_blank htrail]
    decide
  | cons c ds =>
    obtain ⟨hspace, hplus, hminus⟩ := isspace_of_digit (hds c List.mem_cons_self)
    have hsign : atoiSign ((c :: ds ++ trail).dropWhile isspace) = (false, c :: ds ++ trail) := by
      rw [List.cons_append, List.dropWhile_cons_of_neg (by rw [hspace]; exact Bool.false_ne_true), atoiSign,
        if_neg hplus, if_neg hminus]
    rw [atoi, hsign]
    simp only [foldl_takeWhile hds htrail]
    rfl

end

lemma atoi_field (hlead : IsBlank lead) (htrail : IsBlank trail) (hds : ∀ c ∈ ds, isdigit c = true)
    (flags : List Byte) (negative : Bool) :
    atoi (lead ++ (signText flags true negative ++ (ds ++ trail))) =
      if negative then int32 (-(decimal ds : Nat)) else int32 (-int32 (-(decimal ds : Nat))) := by
  have hblank : IsBlank [ascii ' '] := isBlank_replicate 1
  rw [atoi_blank hlead, signText]
  cases negative with
  | true => exact atoi_minus hds htrail
  | false =>
    simp only [Bool.not_true, Bool.false_eq_true, if_false]
    split_ifs
    · exact atoi_plus hds htrail
    · exact (atoi_blank hblank _).trans (atoi_digits hds htrail)
    · exact atoi_digits hds htrail

end Reading

section Decimals

variable {c : Conversion}

lemma decimal_append (ds es : List Byte) :
    decimal (ds ++ es) = es.foldl (fun n c => n * 10 + (c.toNat - 0x30)) (decimal ds) := List.foldl_append

lemma decimal_zeros (n : Nat) : decimal (List.replicate n (ascii '0')) = 0 := by
  induction n with
  | zero => rfl
  | succ n ih => exact ih

lemma decimal_zeros_append (n : Nat) (ds : List Byte) : decimal
    (List.replicate n (ascii '0') ++ ds) = decimal ds := by
  rw [decimal_append, decimal_zeros, decimal]

lemma digit_toNat {d : Nat} (h : d < 10) : (baseD.digit d).toNat - 0x30 = d ∧ isdigit (baseD.digit d) = true := by
  revert d
  decide

lemma decimal_map {l : List Nat} (h : ∀ d ∈ l, d < 10) : decimal (l.map baseD.digit) = Nat.ofDigits 10 l.reverse := by
  rw [decimal, List.foldl_map, Nat.ofDigits_eq_foldr, List.foldr_reverse]
  refine List.foldl_ext _ _ _ fun n d hd => ?_
  rw [(digit_toNat (h d hd)).1, Nat.cast_id, Nat.add_comm, Nat.mul_comm]

lemma numeral_decimal (hgroup : c.flags .group = false) (value : Nat) :
    (∀ x ∈ numeral value baseD c, isdigit x = true) ∧ decimal (numeral value baseD c) = value := by
  obtain ⟨l, hl, hfilter, hvalue⟩ := denotes_numeral baseD_mem c value
  have hcomma : ascii ',' ∉ numeral value baseD c := by
    have htext : spaced baseD c 0 (significant baseD value) = significant baseD value := by
      rw [spaced, hgroup]
      rfl
    simp only [numeral, htext, List.mem_append, List.mem_reverse, not_or]
    exact ⟨fun h => absurd (List.mem_replicate.mp h).2 (by decide), comma_notMem_significant baseD_mem⟩
  have hself : (numeral value baseD c).filter (· ≠ ascii ',') = numeral value baseD c :=
    List.filter_eq_self.mpr fun x hx => decide_eq_true (ne_of_mem_of_not_mem hx hcomma)
  rw [hself] at hfilter
  rw [hfilter]
  refine ⟨fun x hx => ?_, (decimal_map hl).trans hvalue⟩
  obtain ⟨d, hd, rfl⟩ := List.mem_map.mp hx
  exact (digit_toNat (hl d hd)).2

lemma leadText_baseD (flags : List Byte) (value : Nat) : leadText flags baseD value = [] := by
  rw [leadText]
  split <;> rfl

lemma zero_notMem_signText (flags : List Byte) (isSigned negative : Bool) :
    (0 : Byte) ∉ signText flags isSigned negative := by
  rw [signText]
  split_ifs <;> decide

lemma atoi_padded {width precision : Int} (hgroup : Flag.group.byte ∉ d.flags) (w : Nat)
    (left zero negative : Bool) (value : Nat) :
    atoi ((d.field .d width precision negative value).padded w left zero) =
      if negative then int32 (-value) else int32 (-int32 (-value)) := by
  have hflag : (d.resolve width precision).flags .group = false := decide_eq_false hgroup
  obtain ⟨hdigits, hvalue⟩ := numeral_decimal hflag value
  rw [IntField.padded]
  simp only [IntField.body, Directive.field, IntConv.base, IntConv.isSigned, leadText_baseD, List.append_nil,
    List.append_assoc]
  generalize numeral value baseD (d.resolve width precision) = ds at *
  generalize w - (signText d.flags true negative ++ ds).length = fill
  have hnil : IsBlank [] := isBlank_replicate 0
  rw [← hvalue]
  cases left with
  | true => exact atoi_field hnil (isBlank_replicate fill) hdigits d.flags negative
  | false =>
    cases zero with
    | true =>
      have hfilled : ∀ x ∈ List.replicate fill (ascii '0') ++ ds, isdigit x = true := by
        intro x hx
        rcases List.mem_append.mp hx with hx | hx
        · rw [(List.mem_replicate.mp hx).2]
          decide
        · exact hdigits x hx
      have hread := atoi_field hnil hnil hfilled d.flags negative
      rw [decimal_zeros_append, List.append_nil] at hread
      exact hread
    | false =>
      have hread := atoi_field (isBlank_replicate fill) hnil hdigits d.flags negative
      rw [List.append_nil] at hread
      exact hread

end Decimals

section Storing

/-- An array object; its size fits a difference of pointers. -/
structure CharArray where
  bytes : List Byte
  fits : bytes.length < 2 ^ 31

lemma snprintf_eq {format : CString} {args : List Arg} {out : List Byte} (h : vprintf format args = .ok out)
    (hzero : 0 ∉ out) (buffer : CharArray) {size : Nat} (hsize : size ≤ buffer.bytes.length)
    (hfit : out.length < size) :
    ∃ bytes, snprintf buffer.bytes size format args = .ok (out.length, bytes) ∧ cstring bytes = out := by
  have hfits := buffer.fits
  have hrun := vsnprintf_pos h (by omega) (by omega) (by omega) hsize
  rw [List.take_of_length_le (by omega)] at hrun
  exact ⟨_, hrun, cstring_append_zero hzero _⟩

end Storing

section RoundTrip

lemma operand_int (v : BitVec 32) :
    IntConv.d.operand .int [.word v] = .ok ((decide (v.toInt < 0), v.toInt.natAbs), []) := by
  have hint : (v.signExtend 64).toInt = v.toInt := BitVec.toInt_signExtend_of_le (by decide)
  have hslt : (v.signExtend 64).slt 0#64 = decide (v.toInt < 0) := by
    rw [BitVec.slt_eq_decide, hint]
    rfl
  have habs : (if (v.signExtend 64).slt 0#64 then -v.signExtend 64 else v.signExtend 64).toNat = v.toInt.natAbs := by
    rw [hslt, ← hint]
    have hcond := BitVec.toInt_eq_toNat_cond (v.signExtend 64)
    have hlt := (v.signExtend 64).isLt
    split
    · next h =>
      rw [decide_eq_true_eq] at h
      rw [BitVec.toNat_neg]
      split at hcond <;> omega
    · next h =>
      rw [decide_eq_true_eq] at h
      split at hcond <;> omega
  change Except.ok (((v.signExtend 64).slt 0#64, _), []) = _
  rw [habs, hslt]

lemma int32_toInt (v : BitVec 32) :
    (if decide (v.toInt < 0) then int32 (-(v.toInt.natAbs : Int)) else int32 (-int32 (-(v.toInt.natAbs : Int)))) =
      v.toInt := by
  have hlow := v.le_toInt
  have hhigh := v.toInt_lt
  simp only [int32, Int.bmod_def, decide_eq_true_eq]
  split <;> omega

def decimalDirective (flags width : List Byte) (precision : Option (List Byte)) : Directive where
  flags
  width := .digits width
  precision := precision.map .digits
  type := .int

def Directive.intField (d : Directive) (v : BitVec 32) : IntField :=
  d.field .d (d.width.value 0) (d.precisionValue 0) (v.toInt < 0) v.toInt.natAbs

lemma atoi_intField (hgroup : Flag.group.byte ∉ d.flags) (v : BitVec 32) (w : Nat) (left zero : Bool) :
    atoi ((d.intField v).padded w left zero) = v.toInt :=
  (atoi_padded hgroup w left zero (v.toInt < 0) v.toInt.natAbs).trans (int32_toInt v)

lemma mem_padded {f : IntField} {w : Nat} {left zero : Bool} {c : Byte} (h : c ∈ f.padded w left zero) :
    c ∈ f.body ∨ c = ascii ' ' ∨ c = ascii '0' := by
  rw [IntField.padded] at h
  split_ifs at h
  all_goals
    simp only [IntField.body, List.mem_append, List.mem_replicate] at h ⊢
    tauto

lemma zero_notMem_intField (hgroup : Flag.group.byte ∉ d.flags) (v : BitVec 32) (w : Nat)
    (left zero : Bool) : (0 : Byte) ∉ (d.intField v).padded w left zero := by
  have hflag : (d.resolve (d.width.value 0) (d.precisionValue 0)).flags .group = false := decide_eq_false hgroup
  intro h
  rcases mem_padded h with h | h | h
  · simp only [IntField.body, List.mem_append] at h
    rcases h with (h | h) | h
    · exact zero_notMem_signText d.flags true (v.toInt < 0) h
    · have hmark : (d.intField v).lead = [] := leadText_baseD d.flags _
      exact absurd (hmark ▸ h) List.not_mem_nil
    · exact absurd ((numeral_decimal hflag _).1 0 h) (by decide)
  · exact absurd h (by decide)
  · exact absurd h (by decide)

variable {flags width : List Byte} {precision : Option (List Byte)}

lemma vprintf_decimal (hd : (decimalDirective flags width precision).Canonical) (hwidth : decimal width < 2 ^ 31)
    (v : BitVec 32) : ∃ left zero, vprintf (Directive.format hd .d) [.word v] =
      .ok (((decimalDirective flags width precision).intField v).padded (decimal width) left zero) := by
  have hargs : (decimalDirective flags width precision).args 0 0 (.word v) = [.word v] := by
    cases precision <;> rfl
  have hrun := vprintf_format hd .d 0 0 (operand_int v)
  have hvalue : ((decimalDirective flags width precision).width.value 0).natAbs < 2 ^ 31 := hwidth
  rw [hargs, int32_of_lt hvalue] at hrun
  refine ⟨_, _, hrun.trans ((formatInteger_padded_iff hvalue (operand_lt (operand_int v))).mpr ?_)⟩
  rintro ⟨-, -, hneg, -⟩
  exact absurd hneg (Int.not_lt.mpr (Int.natCast_nonneg _))

theorem atoi_snprintf (hd : (decimalDirective flags width precision).Canonical)
    (hflags : ∀ c ∈ flags, c ∈ [Flag.minus.byte, Flag.plus.byte, Flag.space.byte, Flag.zero.byte]) (v : BitVec 32)
    (buffer : CharArray) {size : Nat} (hsize : size ≤ buffer.bytes.length)
    (hfit : max (decimal width) ((decimalDirective flags width precision).intField v).body.length < size) :
    ∃ n bytes, snprintf buffer.bytes size (Directive.format hd .d) [.word v] = .ok (n, bytes) ∧
      atoi (cstring bytes) = v.toInt := by
  have hfits := buffer.fits
  obtain ⟨left, zero, hrun⟩ := vprintf_decimal hd (by omega) v
  have hgroup : Flag.group.byte ∉ (decimalDirective flags width precision).flags :=
    fun h => absurd (hflags _ h) (by decide)
  have hout := IntField.length_padded ((decimalDirective flags width precision).intField v) (decimal width) left zero
  obtain ⟨bytes, hstored, hstring⟩ := snprintf_eq hrun (zero_notMem_intField hgroup v _ left zero)
    buffer hsize (by omega)
  exact ⟨_, bytes, hstored, hstring ▸ atoi_intField hgroup v _ left zero⟩

lemma twelveZeros_canonical : (decimalDirective [ascii '0'] [ascii '1', ascii '2'] none).Canonical where
  flags := by decide
  width := show ∀ c ∈ [ascii '1', ascii '2'], isdigit c = true by decide
  nonzero := by decide
  precision := nofun

theorem atoi_snprintf_smallest : ∃ n bytes,
    snprintf (List.replicate 20 0xff) 16 (Directive.format twelveZeros_canonical .d)
      [.word 0x80000000] = .ok (n, bytes) ∧ atoi (cstring bytes) = -2147483648 :=
  atoi_snprintf twelveZeros_canonical (by decide) 0x80000000 ⟨List.replicate 20 0xff, by decide⟩ (by decide)
    (by decide +kernel)

end RoundTrip

end Pintos.Lib
