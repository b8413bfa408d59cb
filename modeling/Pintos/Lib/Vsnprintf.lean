import Pintos.Lib.IntegerFields
import Pintos.Lib.Ustar

/-! Formatted text stored into a buffer, cut off at the buffer's size. -/

namespace Pintos.Lib

open Pintos.Foundation Pintos.Kernel

variable {out : List Byte}

/-- The count goes on where the buffer ends; the position does not. -/
lemma foldlM_helper {aux : VsnprintfAux} (room : Nat) (hlength : 0 ≤ aux.length)
    (hint : aux.length + out.length < 2 ^ 31) (hroom : room = (aux.maxLength - aux.length).toNat)
    (hbuffer : aux.p + (out.take room).length ≤ aux.buffer.length) :
    out.foldlM vsnprintfHelper aux = .ok { aux with
      buffer := overlay aux.buffer aux.p (out.take room), p := aux.p + (out.take room).length,
      length := aux.length + out.length } := by
  induction out generalizing aux room with
  | nil =>
    rw [List.take_nil, overlay_nil]
    simp [pure_eq_ok]
  | cons c out ih =>
    rw [List.length_cons] at hint
    have hnext : int32 (aux.length + 1) = aux.length + 1 := int32_of_lt (by omega)
    have hcount : aux.length + 1 + out.length = aux.length + (c :: out).length := by
      rw [List.length_cons]
      omega
    rw [List.foldlM_cons, vsnprintfHelper, hnext]
    cases room with
    | zero =>
      have hfull : ¬ aux.length < aux.maxLength := by omega
      rw [if_neg hfull, pure_eq_ok, bind_ok, ih 0 (by simp only; omega) (by simp only; omega)
        (by simp only; omega) (by simpa using hbuffer)]
      simp only [List.take_zero, hcount]
    | succ room =>
      rw [List.take_succ_cons, List.length_cons] at hbuffer ⊢
      have hone : (overlay aux.buffer aux.p [c]).length = aux.buffer.length :=
        length_overlay (by rw [List.length_singleton]; omega)
      have hoverlay : overlay aux.buffer aux.p ([c] ++ out.take room) =
          overlay (overlay aux.buffer aux.p [c]) (aux.p + 1) (out.take room) :=
        overlay_append (by rw [List.length_singleton]; omega)
      rw [if_pos (by omega), VsnprintfAux.store, if_pos (by omega), pure_eq_ok, bind_ok, pure_eq_ok, bind_ok,
        ih room (by simp only; omega) (by simp only; omega) (by simp only; omega)
          (by simp only [hone]; omega), ← hoverlay]
      simp only [List.singleton_append, hcount, Nat.add_assoc, Nat.add_comm 1]

lemma vsnprintf_pos {format : CString} {args : List Arg} (h : vprintf format args = .ok out)
    (hout : out.length < 2 ^ 31) {buffer : List Byte} {size : Nat} (hpos : 0 < size) (hsize : size ≤ 2 ^ 31)
    (hroom : size ≤ buffer.length) :
    vsnprintf buffer size format args =
      .ok (out.length, out.take (size - 1) ++ 0 :: buffer.drop ((out.take (size - 1)).length + 1)) := by
  have hmax : int32 (size - 1) = size - 1 := int32_of_lt (by omega)
  have hlen : (out.take (size - 1)).length + 1 ≤ buffer.length := by
    rw [List.length_take]
    omega
  have hstored : out.foldlM vsnprintfHelper ⟨buffer, 0, 0, size - 1⟩ = _ :=
    foldlM_helper (size - 1) le_rfl (by simp only; omega) (by simp only; omega) (by simp only; omega)
  have hkept : (overlay buffer 0 (out.take (size - 1))).length = buffer.length := length_overlay (by omega)
  have hbytes : overlay (overlay buffer 0 (out.take (size - 1))) (0 + (out.take (size - 1)).length) [0] =
      out.take (size - 1) ++ 0 :: buffer.drop ((out.take (size - 1)).length + 1) := by
    rw [← overlay_append (by rw [List.length_singleton]; omega), overlay]
    simp
  rw [vsnprintf, h, bind_ok]
  simp only [if_pos hpos, hmax, hstored, bind_ok, VsnprintfAux.store]
  rw [if_pos (by omega), hbytes]
  simp [pure_eq_ok]

theorem vsnprintf_truncates {format : CString} {args : List Arg} (h : vprintf format args = .ok out)
    (hout : out.length < 2 ^ 31) {buffer : List Byte} {size : Nat} (hsize : size ≤ 2 ^ 31)
    (hroom : size ≤ buffer.length) :
    ∃ bytes, vsnprintf buffer size format args = .ok (out.length, bytes) ∧
      (size = 0 → bytes = buffer) ∧
      (0 < size → bytes = out.take (min out.length (size - 1)) ++
        0 :: buffer.drop (min out.length (size - 1) + 1)) := by
  rcases Nat.eq_zero_or_pos size with rfl | hpos
  · have hstored : out.foldlM vsnprintfHelper ⟨buffer, 0, 0, 0⟩ = _ :=
      foldlM_helper 0 le_rfl (by simp only; omega) rfl (by simp)
    refine ⟨buffer, ?_, fun _ => rfl, fun hpos => absurd hpos (Nat.lt_irrefl 0)⟩
    rw [vsnprintf, h, bind_ok]
    simp [hstored, bind_ok, overlay_nil, pure_eq_ok]
  · refine ⟨_, vsnprintf_pos h hout hpos hsize hroom, fun h0 => absurd h0 hpos.ne', fun _ => ?_⟩
    rw [List.length_take, Nat.min_comm out.length, ← List.take_eq_take_min]

theorem vsnprintf_truncates_four_bytes : ∃ bytes,
    vsnprintf (List.replicate 6 0xff) 4 ⟨bytesOf "%d!", by decide⟩ [.word 12345] = .ok (6, bytes) ∧
      bytes = bytesOf "123" ++ [0, 0xff, 0xff] := by
  have hrun : vprintf ⟨bytesOf "%d!", by decide⟩ [.word 12345] = .ok (bytesOf "12345!") := by decide +kernel
  obtain ⟨bytes, hstored, -, hbytes⟩ := vsnprintf_truncates hrun (by decide) (by decide : 4 ≤ 2 ^ 31)
    (by decide : 4 ≤ (List.replicate 6 (0xff : Byte)).length)
  exact ⟨bytes, hstored, hbytes (by decide)⟩

section OctalFields

variable {ds : List Byte}

def octalDirective (ds : List Byte) : Directive where
  flags := [ascii '0']
  width := .digits ds
  precision := none
  type := .int

lemma numeral_octal (ds : List Byte) (width : Int) (value : Nat) :
    numeral value baseO ((octalDirective ds).resolve width (-1)) = (octalDigits value).map octDigit := by
  have hdigit : ∀ d < 8, baseO.digit d = octDigit d := by decide
  have hdigits : significant baseO value = (Nat.digits 8 value).map octDigit :=
    List.map_congr_left fun d hd => hdigit d (Nat.digits_lt_base (by decide) hd)
  rcases Nat.eq_zero_or_pos value with rfl | hpos
  · rfl
  · have hlen : 1 - (significant baseO value).length = 0 := by
      rw [hdigits, List.length_map, Nat.digits_def' (by decide) hpos, List.length_cons]
      omega
    change List.replicate (max (1 - (significant baseO value).length) 0) (ascii '0') ++ _ = _
    rw [hlen, octalDigits, if_neg hpos.ne', List.map_reverse, ← hdigits]
    rfl

lemma vprintf_octal (hd : (octalDirective ds).Canonical) (hwidth : decimal ds < 2 ^ 31) (v : BitVec 32) :
    vprintf (Directive.format hd .o) [.word v] = .ok (formatOctal (decimal ds) v.toNat) := by
  have ha : IntConv.o.operand .int [.word v] = .ok ((false, v.toNat), []) := by
    rw [← BitVec.toNat_setWidth_of_le (by decide : 32 ≤ 64)]
    rfl
  have hvalue : (decimal ds : Int).natAbs < 2 ^ 31 := hwidth
  refine (vprintf_format hd .o 0 0 ha).trans ?_
  rw [show (octalDirective ds).width.value 0 = decimal ds from rfl, int32_of_lt hvalue]
  refine ((formatInteger_padded_iff hvalue (operand_lt ha)).mpr fun h => ?_).trans (congrArg Except.ok ?_)
  · exact absurd h.2.2.1 (Int.not_lt.mpr (Int.natCast_nonneg _))
  · have hdigits := numeral_octal ds (decimal ds) v.toNat
    rw [formatOctal, List.map_append, List.map_replicate, ← hdigits, ← List.length_map octDigit, ← hdigits]
    rfl

/-- The octal fields of an archive header are what `snprintf` stores for `%07o` and `%011o`. -/
lemma snprintf_octal (hd : (octalDirective ds).Canonical) (hwidth : decimal ds < 2 ^ 31) {v : BitVec 32}
    (hpos : 0 < decimal ds) (hv : v.toNat < 8 ^ decimal ds) :
    snprintf (zeros (decimal ds + 1)) (decimal ds + 1) (Directive.format hd .o) [.word v] =
      .ok (decimal ds, text (decimal ds + 1) (formatOctal (decimal ds) v.toNat)) := by
  have hlen := length_formatOctal hpos hv
  have hrun := vsnprintf_pos (vprintf_octal hd hwidth v) (by omega) (Nat.succ_pos _) hwidth
    (List.length_replicate (n := decimal ds + 1) (a := (0 : Byte))).ge
  rw [Nat.succ_sub_one, List.take_of_length_le hlen.le, hlen, List.drop_replicate, Nat.sub_self] at hrun
  rw [text_formatOctal hpos hv]
  exact hrun

end OctalFields

end Pintos.Lib
