import Pintos.Lib.Ustar

/-! What holds of a block that is accepted as the header of a file. -/

namespace Pintos.Lib

open Pintos.Foundation Pintos.Kernel

variable {header : List Byte} {type : UstarType}

/-- The field starts with an octal numeral that a space or a null byte ends. -/
def OctalField (s : List Byte) (v : Nat) : Prop :=
  ∃ ds t rest, s = ds.map octDigit ++ t :: rest ∧ ds ≠ [] ∧ (∀ d ∈ ds, d < 8) ∧ (t = 0x20 ∨ t = 0) ∧
    Nat.ofDigits 8 ds.reverse = v

lemma octDigit_sub {c : Byte} (h : 0x30 ≤ c.toNat ∧ c.toNat ≤ 0x37) : octDigit (c.toNat - 0x30) = c := by
  apply BitVec.eq_of_toNat_eq
  rw [octDigit_toNat (by omega)]
  omega

lemma parseOctalLoop_eq_some {s : List Byte} {ofs value v : Nat} (h : parseOctalLoop s ofs value = some v) :
    ∃ ds t rest, s = ds.map octDigit ++ t :: rest ∧ 0 < ofs + ds.length ∧ (∀ d ∈ ds, d < 8) ∧
      (t = 0x20 ∨ t = 0) ∧ octValue value ds = v := by
  induction s generalizing ofs value with
  | nil => cases h
  | cons c s ih =>
    rw [parseOctalLoop] at h
    split at h
    · next hc =>
      rw [Option.ite_none_left_eq_some] at h
      obtain ⟨ds, t, rest, rfl, hpos, hds, ht, hv⟩ := ih h.2
      refine ⟨(c.toNat - 0x30) :: ds, t, rest, ?_, by simp, ?_, ht, hv⟩
      · rw [List.map_cons, octDigit_sub hc, List.cons_append]
      · intro d hd
        rcases List.mem_cons.mp hd with rfl | hd
        · omega
        · exact hds d hd
    · split at h
      · next hc =>
        rw [Option.ite_none_right_eq_some, Option.some.injEq] at h
        exact ⟨[], c, s, rfl, h.1, by simp, hc, h.2⟩
      · cases h

lemma octalField_of_parse {s : List Byte} {v : Nat} (h : parseOctalField s = some v) : OctalField s v := by
  obtain ⟨ds, t, rest, rfl, hpos, hds, ht, hv⟩ := parseOctalLoop_eq_some h
  refine ⟨ds, t, rest, rfl, ?_, hds, ht, ?_⟩
  · rintro rfl
    exact absurd hpos (by decide)
  · rw [← octValue_reverse, List.reverse_reverse, hv]

structure Accepted (header name : List Byte) (type : UstarType) (size : Nat) : Prop where
  magic : field header 257 6 = [0x75, 0x73, 0x74, 0x61, 0x72, 0]
  chksum : parseOctalField (field header 148 8) = some (calculateChksum header)
  nameEnd : header.getD 99 0 = 0
  size : ustarParseSize header type = .ok size
  name : name = stripAntisocialPrefixes (cstring (field header 0 100))

lemma ustarParseHeader_eq_ok {entry : UstarEntry} (h : ustarParseHeader header = .ok entry) :
    (entry = .eof ∧ ∀ b ∈ header.take ustarHeaderSize, b = 0) ∨
      ∃ name type size, entry = .file name type size ∧ Accepted header name type size := by
  rw [ustarParseHeader] at h
  split at h
  · next hzero =>
    cases h
    exact .inl ⟨rfl, fun b hb => of_decide_eq_true (List.all_eq_true.mp hzero b hb)⟩
  split at h
  · cases h
  next hmagic =>
  split at h
  · cases h
  split at h
  · cases h
  next chksum hchksum =>
  split at h
  · cases h
  next hsum =>
  split at h
  · cases h
  next hend =>
  split at h
  · cases h
  next type _ =>
  obtain ⟨size, hsize, hentry⟩ := bind_eq_ok.mp h
  cases hentry
  rw [not_or, not_not, not_not] at hend
  rw [not_not] at hmagic hsum
  exact .inr ⟨_, type, size, rfl, hmagic, hsum ▸ hchksum, hend.1, hsize, rfl⟩

lemma accepted_of_parse {header name : List Byte} {size : Nat}
    (h : ustarParseHeader header = .ok (.file name type size)) : Accepted header name type size := by
  rcases ustarParseHeader_eq_ok h with ⟨he, _⟩ | ⟨_, _, _, he, ha⟩
  · cases he
  · cases he
    exact ha

section Names

variable {fileName : List Byte}

lemma length_stripAntisocialPrefixes_le (h : fileName.length ≤ 99) :
    (stripAntisocialPrefixes fileName).length ≤ 99 := by
  simp only [stripAntisocialPrefixes]
  split
  · decide
  · exact (stripPrefixes_suffix fileName).length_le.trans h

lemma not_antisocial_iff : antisocial fileName = false ↔
    ¬ [slash] <+: fileName ∧ ¬ [dot, slash] <+: fileName ∧ ¬ [dot, dot, slash] <+: fileName := by
  rw [antisocial, Bool.or_eq_false_iff, Bool.or_eq_false_iff, and_assoc]
  simp only [Bool.eq_false_iff, ne_eq, List.isPrefixOf_iff_prefix]

end Names

lemma length_cstring_le (h : header.getD 99 0 = 0) (hlen : header.length = 512) :
    (cstring (field header 0 100)).length ≤ 99 := by
  have hfield : (field header 0 100).length = 100 := length_field (by omega)
  have hsub : (cstring (field header 0 100)).Sublist (field header 0 100) := List.takeWhile_sublist _
  by_contra hlong
  have hall := hsub.eq_of_length_le (by omega)
  have hlast : (field header 0 100).getD 99 0 ∈ field header 0 100 := by
    rw [List.getD_eq_getElem _ _ (by omega)]
    exact List.getElem_mem _
  rw [getD_field _ (by omega), h] at hlast
  rw [← hall, cstring] at hlast
  simpa using List.mem_takeWhile_imp hlast

section Corruption

variable {i : Nat} {b : Byte}

lemma field_set {ofs len : Nat} (h : i < ofs ∨ ofs + len ≤ i) : field
    (header.set i b) ofs len = field header ofs len := by
  apply List.ext_getElem?
  intro k
  simp only [field, List.getElem?_take, List.getElem?_drop]
  split
  · rw [List.getElem?_set_ne (by omega)]
  · rfl

lemma byteSum_set (bs : List Byte) (h : i < bs.length) :
    byteSum (bs.set i b) + bs[i].toNat = byteSum bs + b.toNat := by
  induction bs generalizing i with
  | nil => exact absurd h (Nat.not_lt_zero i)
  | cons c bs ih =>
    cases i with
    | zero =>
      simp only [List.set_cons_zero, byteSum, List.map_cons, List.sum_cons, List.getElem_cons_zero]
      omega
    | succ i =>
      have hrest := ih (i := i) (Nat.lt_of_succ_lt_succ h)
      simp only [byteSum] at hrest
      simp only [List.set_cons_succ, byteSum, List.map_cons, List.sum_cons, List.getElem_cons_succ]
      omega

lemma blanked_set (hlen : header.length = 512) (hi : i < 148 ∨ 156 ≤ i) :
    blanked (header.set i b) = (blanked header).set i b := by
  have htake : (header.take 148).length = 148 := by simp [hlen]
  simp only [blanked, List.append_assoc]
  rcases hi with hi | hi
  · rw [List.take_set, List.drop_set_of_lt (by omega), List.set_append_left _ _ (by omega)]
  · rw [List.take_set_of_le (by omega), List.drop_set, if_neg (by omega), List.set_append_right _ _ (by omega),
      List.set_append_right _ _ (by rw [List.length_replicate]; omega), htake, List.length_replicate,
      Nat.sub_sub]

lemma calculateChksum_set_ne (hlen : header.length = 512) (hi : i < 512) (hout : i < 148 ∨ 156 ≤ i)
    (hb : b ≠ header.getD i 0) : calculateChksum (header.set i b) ≠ calculateChksum header := by
  have hblank : (blanked header).length = 512 := by simp [blanked, hlen]
  have hbyte : (blanked header)[i] = header.getD i 0 := by
    have hsame := blanked_set (b := header.getD i 0) hlen hout
    rw [List.getD_eq_getElem _ _ (by omega), List.set_getElem_self] at hsame
    have hget := congrArg (fun l => l[i]?) hsame
    rw [List.getElem?_set_self (by omega), List.getElem?_eq_getElem (by omega)] at hget
    rw [Option.some.inj hget, List.getD_eq_getElem]
  have hsum := byteSum_set (b := b) (blanked header) (show i < (blanked header).length by omega)
  rw [hbyte] at hsum
  rw [calculateChksum_eq (by rw [List.length_set, hlen]), calculateChksum_eq hlen, blanked_set hlen hout]
  intro he
  exact hb (BitVec.eq_of_toNat_eq (by omega))

lemma set_not_zeros (hlen : header.length = 512) (h : field header 257 6 = [0x75, 0x73, 0x74, 0x61, 0x72, 0])
    (i : Nat) (b : Byte) : ¬ ∀ c ∈ (header.set i b).take ustarHeaderSize, c = 0 := by
  -- Two bytes of the magic are not zero, and at most one of them has changed.
  have hbyte : ∀ k < 2, header.getD (257 + k) 0 ≠ 0 := by
    intro k hk
    rw [← getD_field header (show k < 6 by omega), h]
    interval_cases k <;> decide
  have hkeep : ∃ k < 2, 257 + k ≠ i := by
    by_cases hi : i = 257
    · exact ⟨1, by omega, by omega⟩
    · exact ⟨0, by omega, by omega⟩
  obtain ⟨k, hk, hne⟩ := hkeep
  intro hall
  have hmem : (header.set i b).getD (257 + k) 0 ∈ (header.set i b).take ustarHeaderSize := by
    rw [List.take_of_length_le (by rw [List.length_set, hlen, ustarHeaderSize]),
      List.getD_eq_getElem _ _ (by rw [List.length_set]; omega)]
    exact List.getElem_mem _
  have hzero := hall _ hmem
  rw [List.getD_eq_getElem?_getD, List.getElem?_set_ne (Ne.symm hne), ← List.getD_eq_getElem?_getD] at hzero
  exact hbyte k hk hzero

lemma Accepted.set_rejected {name : List Byte} {size : Nat} (h : Accepted header name type size)
    (hlen : header.length = 512) (hi : i < 512) (hout : i < 148 ∨ 156 ≤ i) (hb : b ≠ header.getD i 0) :
    ∃ e, ustarParseHeader (header.set i b) = .error e := by
  cases hparse : ustarParseHeader (header.set i b) with
  | error e => exact ⟨e, rfl⟩
  | ok entry =>
    rcases ustarParseHeader_eq_ok hparse with ⟨_, hzero⟩ | ⟨_, _, _, _, h'⟩
    · exact absurd hzero (set_not_zeros hlen h.magic i b)
    · have hchksum := h'.chksum
      rw [field_set (by omega), h.chksum, Option.some.injEq] at hchksum
      exact absurd hchksum.symm (calculateChksum_set_ne hlen hi hout hb)

end Corruption

lemma ustarParseSize_eq_ok {size : Nat} (h : ustarParseSize header type = .ok size) :
    size ≤ intMax ∧ (type = .regular → OctalField (field header 124 12) size) := by
  cases type with
  | directory =>
    cases h
    exact ⟨Nat.zero_le _, nofun⟩
  | regular =>
    rw [ustarParseSize] at h
    split at h
    · cases h
    next v hv =>
    split at h
    · cases h
    next hmax =>
    cases h
    exact ⟨Nat.le_of_not_lt hmax, fun _ => octalField_of_parse hv⟩

theorem ustar_header_accepted {header name : List Byte} {type : UstarType} {size : Nat} (hlen : header.length = 512)
    (h : ustarParseHeader header = .ok (.file name type size)) :
    (name ≠ [] ∧ name.length ≤ 99 ∧ ¬ [slash] <+: name ∧ ¬ [dot, slash] <+: name ∧ ¬ [dot, dot, slash] <+: name ∧
      name ≠ [dot, dot]) ∧
    size ≤ intMax ∧ (type = .regular → OctalField (field header 124 12) size) ∧
    ∀ i < 512, ¬ (148 ≤ i ∧ i < 156) → ∀ b ≠ header.getD i 0, ∃ e, ustarParseHeader (header.set i b) = .error e := by
  have ha := accepted_of_parse h
  obtain ⟨hmax, hoctal⟩ := ustarParseSize_eq_ok ha.size
  obtain ⟨hsocial, hne, hdots⟩ := stripAntisocialPrefixes_social (cstring (field header 0 100))
  obtain ⟨hslash, hdot, hdotdot⟩ := not_antisocial_iff.mp hsocial
  have hlong := length_stripAntisocialPrefixes_le (length_cstring_le ha.nameEnd hlen)
  rw [← ha.name] at hslash hdot hdotdot hne hdots hlong
  exact ⟨⟨hne, hlong, hslash, hdot, hdotdot, hdots⟩, hmax, hoctal,
    fun i hi hout b hb => ha.set_rejected hlen hi (by omega) hb⟩

theorem ustar_header_accepted_small :
    ∃ header name, ustarMakeHeader [0x65] .regular 700 = some header ∧
      ustarParseHeader header = .ok (.file name .regular 700) ∧
      ∃ e, ustarParseHeader (header.set 0 0x66) = .error e := by
  have hshort : ¬ 99 < (stripAntisocialPrefixes [0x65]).length := by
    rw [stripAntisocialPrefixes_self (by decide) (by decide) (by decide)]
    decide
  have hmake : ∃ header, ustarMakeHeader [0x65] .regular 700 = some header := ⟨_, if_neg hshort⟩
  obtain ⟨header, hmake⟩ := hmake
  have hsize : 700 ≤ intMax := by decide
  obtain ⟨hname, hdr, rfl, hd⟩ := ustarMakeHeader_heads hsize hmake
  have hparse := hd.parse hname (zero_notMem_strip (by decide)) hsize
  have hfirst : (0x66 : Byte) ≠ hdr.toBytes.getD 0 0 := by
    have hbyte : hdr.toBytes.getD 0 0 = hdr.name.getD 0 0 := hd.sized.byte (i := 0) (k := 0) rfl rfl rfl (by decide)
    rw [hbyte, hd.name_eq, stripAntisocialPrefixes_self (by decide) (by decide) (by decide)]
    decide
  obtain ⟨_, _, _, hcorrupt⟩ := ustar_header_accepted hd.sized.length hparse
  exact ⟨_, _, hmake, hparse, hcorrupt 0 (by decide) (by decide) _ hfirst⟩

end Pintos.Lib
