import Mathlib.Data.Nat.Digits.Lemmas
import Pintos.Foundation.Bytes

/-! Octal numerals with leading zeros, as digits of text. -/

namespace Pintos.Foundation

def octDigit (d : Nat) : Byte := .ofNat 8 (0x30 + d)

def octValue (start : Nat) (ds : List Nat) : Nat := ds.foldl (fun value d => d + value * 8) start

def octalDigits (v : Nat) : List Nat := if v = 0 then [0] else (Nat.digits 8 v).reverse

def formatOctal (width v : Nat) : List Byte :=
  (List.replicate (width - (octalDigits v).length) 0 ++ octalDigits v).map octDigit

variable {d v width : Nat}

lemma octDigit_toNat (h : d < 8) : (octDigit d).toNat = 0x30 + d := by
  rw [octDigit, BitVec.toNat_ofNat]
  omega

lemma octDigit_ne_zero (h : d < 8) : octDigit d ≠ 0 := by
  intro he
  have hd := octDigit_toNat h
  rw [he] at hd
  have hzero : (0 : Byte).toNat = 0 := rfl
  omega

lemma octValue_append (start : Nat) (ds es : List Nat) :
    octValue start (ds ++ es) = octValue (octValue start ds) es :=
  List.foldl_append

lemma octValue_replicate_zero (n : Nat) : octValue 0 (List.replicate n 0) = 0 := by
  induction n with
  | zero => rfl
  | succ n ih => exact ih

lemma octValue_reverse (ds : List Nat) : octValue 0 ds.reverse = Nat.ofDigits 8 ds := by
  rw [octValue, List.foldl_reverse, Nat.ofDigits_eq_foldr]
  simp only [Nat.cast_id, Nat.mul_comm]

lemma octValue_octalDigits (v : Nat) : octValue 0 (octalDigits v) = v := by
  rw [octalDigits]
  split
  · next hv => exact hv.symm
  · rw [octValue_reverse, Nat.ofDigits_digits]

lemma octalDigits_lt (h : d ∈ octalDigits v) : d < 8 := by
  rw [octalDigits] at h
  split at h
  · rw [List.mem_singleton.mp h]
    decide
  · exact Nat.digits_lt_base (by decide) (List.mem_reverse.mp h)

variable (hw : 0 < width) (h : v < 8 ^ width)

include hw h

lemma length_octalDigits_le : (octalDigits v).length ≤ width := by
  rw [octalDigits]
  split
  · exact hw
  · rw [List.length_reverse]
    exact (Nat.digits_length_le_iff (by decide) v).mpr h

lemma formatOctal_spec :
    ∃ ds : List Nat, formatOctal width v = ds.map octDigit ∧ ds.length = width ∧ (∀ d ∈ ds, d < 8) ∧
      octValue 0 ds = v := by
  have hlen := length_octalDigits_le hw h
  refine ⟨List.replicate (width - (octalDigits v).length) 0 ++ octalDigits v, rfl, ?_, ?_, ?_⟩
  · rw [List.length_append, List.length_replicate]
    omega
  · intro d hd
    rcases List.mem_append.mp hd with hd | hd
    · rw [(List.mem_replicate.mp hd).2]
      decide
    · exact octalDigits_lt hd
  · rw [octValue_append, octValue_replicate_zero, octValue_octalDigits]

lemma length_formatOctal : (formatOctal width v).length = width := by
  obtain ⟨ds, hds, hlen, -⟩ := formatOctal_spec hw h
  rw [hds, List.length_map, hlen]

end Pintos.Foundation
