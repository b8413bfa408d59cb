import Pintos.Lib.Ustar

/-! The archive headers that the host script writes and reads, and the kernel's across from them. -/

namespace Pintos.Host

open Pintos.Foundation Pintos.Lib

def mkUstarField (number size : Nat) : Option (List Byte) :=
  let out := formatOctal (size - 1) number ++ [0]
  if out.length ≠ size then none else some out

def calcUstarChksum (s : List Byte) : Option Nat :=
  if s.length ≠ 512 then none
  else some (byteSum (s.take 148 ++ List.replicate 8 0x20 ++ s.drop 156) % 4294967296)

/-- The header that `put_scratch_file` writes for a file of `size` bytes. -/
def putScratchHeader (dstFileName : List Byte) (size : Nat) : Option (List Byte) := do
  if 99 < dstFileName.length then none
  else
    let mode ← mkUstarField 0o644 8
    let uid ← mkUstarField 0 8
    let gid ← mkUstarField 0 8
    let size ← mkUstarField size 12
    let mtime ← mkUstarField 1136102400 12
    let header := [padded 100 dstFileName, mode, uid, gid, size, mtime, List.replicate 8 0x20, [0x30],
      zeros 100, [0x75, 0x73, 0x74, 0x61, 0x72, 0], [0x30, 0x30], [0x72, 0x6f, 0x6f, 0x74] ++ zeros 28,
      [0x72, 0x6f, 0x6f, 0x74] ++ zeros 28, zeros 8, zeros 8, zeros 155, zeros 12].flatten
    let chksum ← mkUstarField (← calcUstarChksum header) 8
    return header.take 148 ++ chksum ++ header.drop 156

def isOctDigit (c : Byte) : Bool := 0x30 ≤ c.toNat ∧ c.toNat ≤ 0x37

def oct (s : List Byte) : Nat := octValue 0 ((s.takeWhile isOctDigit).map fun c => c.toNat - 0x30)

inductive GetError
  | endsUnexpectedly
  | corruptSignature
  | invalidVersion
  | checksumMismatch
  | notRegular
  deriving DecidableEq, Repr

/-- The size that `get_scratch_file` finds in a header, or the check that fails. -/
def getScratchHeader (header : List Byte) : Option (Except GetError Nat) := do
  if header = zeros 512 then return .error .endsUnexpectedly
  else if field header 257 6 ≠ [0x75, 0x73, 0x74, 0x61, 0x72, 0] then return .error .corruptSignature
  else if field header 263 2 ≠ [0x30, 0x30] then return .error .invalidVersion
  else
    let chksum := oct (cstring (field header 148 8))
    let correctChksum ← calcUstarChksum header
    if chksum ≠ correctChksum then return .error .checksumMismatch
    else if field header 156 1 ≠ [0x30] ∧ field header 156 1 ≠ [0] then return .error .notRegular
    else return .ok (oct (cstring (field header 124 12)))

lemma mkUstarField_eq {width number : Nat} (hw : 0 < width) (h : number < 8 ^ width) :
    mkUstarField number (width + 1) = some (text (width + 1) (formatOctal width number)) := by
  have hlen := length_formatOctal hw h
  rw [text_formatOctal hw h, mkUstarField, Nat.add_sub_cancel]
  exact if_neg (by simp [hlen])

lemma calcUstarChksum_eq {s : List Byte} (h : s.length = 512) :
    calcUstarChksum s = some (byteSum (blanked s)) := by
  have hle := byteSum_le (blanked s)
  have hlen : (blanked s).length = 512 := by simp [blanked, h]
  rw [calcUstarChksum, if_neg (not_not.mpr h), ← blanked, Nat.mod_eq_of_lt (by omega)]

def scratchFields (name : List Byte) (size : Nat) (chksum : List Byte) : UstarHeader where
  name := padded 100 name
  mode := text 8 (formatOctal 7 0o644)
  uid := text 8 (formatOctal 7 0)
  gid := text 8 (formatOctal 7 0)
  size := text 12 (formatOctal 11 size)
  mtime := text 12 (formatOctal 11 1136102400)
  chksum := chksum
  typeflag := 0x30
  linkname := zeros 100
  magic := [0x75, 0x73, 0x74, 0x61, 0x72, 0]
  version := [0x30, 0x30]
  uname := [0x72, 0x6f, 0x6f, 0x74] ++ zeros 28
  gname := [0x72, 0x6f, 0x6f, 0x74] ++ zeros 28
  devmajor := zeros 8
  devminor := zeros 8
  namePrefix := zeros 155
  padding := zeros 12

lemma scratchFields_sized (name : List Byte) (size : Nat) {chksum : List Byte} (h : chksum.length = 8) :
    (scratchFields name size chksum).Sized := by
  simp [UstarHeader.Sized, UstarHeader.fields, scratchFields, length_text, zeros, h, ustarLengths]

lemma scratchFields_chksum (name : List Byte) (size : Nat) (c d : List Byte) :
    ({ scratchFields name size c with chksum := d } : UstarHeader) = scratchFields name size d := rfl

lemma putScratchHeader_heads {name : List Byte} {size : Nat} (hname : name.length ≤ 99)
    (hsize : size ≤ intMax) :
    ∃ hdr : UstarHeader, putScratchHeader name size = some hdr.toBytes ∧ hdr.Heads name .regular size := by
  simp only [intMax] at hsize
  let blank := scratchFields name size (List.replicate 8 0x20)
  let chksum := text 8 (formatOctal 7 (byteSum (blanked blank.toBytes)))
  have hblank : blank.Sized := scratchFields_sized _ _ rfl
  have hfilled : (scratchFields name size chksum).Sized := scratchFields_sized _ _ (length_text _ _)
  have hsum : byteSum (blanked blank.toBytes) = byteSum (blanked (scratchFields name size chksum).toBytes) := by
    rw [blanked_toBytes hblank, blanked_toBytes hfilled, scratchFields_chksum, scratchFields_chksum]
  have hlt : byteSum (blanked blank.toBytes) < 8 ^ 7 := by
    have hle := byteSum_le (blanked blank.toBytes)
    have hlen : (blanked blank.toBytes).length = 512 := by simp [blanked, hblank.length]
    omega
  have hmode : mkUstarField 0o644 8 = some (text 8 (formatOctal 7 0o644)) := mkUstarField_eq (by decide) (by decide)
  have hid : mkUstarField 0 8 = some (text 8 (formatOctal 7 0)) := mkUstarField_eq (by decide) (by decide)
  have hsizef : mkUstarField size 12 = some (text 12 (formatOctal 11 size)) :=
    mkUstarField_eq (by decide) (by omega)
  have hmtime : mkUstarField 1136102400 12 = some (text 12 (formatOctal 11 1136102400)) :=
    mkUstarField_eq (by decide) (by decide)
  have hchksum : mkUstarField (byteSum (blanked blank.toBytes)) 8 = some chksum :=
    mkUstarField_eq (by decide) hlt
  have hcalc : calcUstarChksum blank.toBytes = some (byteSum (blanked blank.toBytes)) :=
    calcUstarChksum_eq hblank.length
  refine ⟨scratchFields name size chksum, ?_, hfilled, rfl, rfl, ?_, rfl, rfl, rfl, rfl⟩
  · rw [putScratchHeader, if_neg (by omega), hmode, hid, hsizef, hmtime]
    change (calcUstarChksum blank.toBytes).bind (fun c => (mkUstarField c 8).bind fun chksum =>
      some (blank.toBytes.take 148 ++ chksum ++ blank.toBytes.drop 156)) = _
    rw [hcalc, Option.bind_some, hchksum, Option.bind_some, replace_chksum hblank, scratchFields_chksum]
  · rw [← hsum]
    rfl

lemma oct_text {width v : Nat} (hw : 0 < width) (h : v < 8 ^ width) :
    oct (cstring (text (width + 1) (formatOctal width v))) = v := by
  obtain ⟨ds, hformat, -, hds, hvalue⟩ := formatOctal_spec hw h
  have hzero : (0 : Byte) ∉ ds.map octDigit := by
    intro hmem
    obtain ⟨d, hd, he⟩ := List.mem_map.mp hmem
    exact octDigit_ne_zero (hds d hd) he
  have hall : (ds.map octDigit).takeWhile isOctDigit = ds.map octDigit := by
    rw [List.takeWhile_eq_self_iff]
    intro c hc
    obtain ⟨d, hd, rfl⟩ := List.mem_map.mp hc
    have h8 := hds d hd
    have hnat := octDigit_toNat h8
    exact decide_eq_true ⟨by omega, by omega⟩
  have hback : ((ds.map octDigit).map fun c => c.toNat - 0x30) = ds := by
    rw [List.map_map]
    refine (List.map_congr_left fun d hd => ?_).trans ds.map_id
    rw [Function.comp_apply, octDigit_toNat (hds d hd), Nat.add_sub_cancel_left, id]
  rw [text_formatOctal hw h, hformat, cstring_append_zero hzero, oct, hall, hback, hvalue]

lemma getScratchHeader_eq {h : UstarHeader} {name : List Byte} {size : Nat} (hd : h.Heads name .regular size)
    (hsize : size ≤ intMax) : getScratchHeader h.toBytes = some (.ok size) := by
  simp only [intMax] at hsize
  have hchksum : oct (cstring (text 8 (formatOctal 7 (byteSum (blanked h.toBytes))))) =
      byteSum (blanked h.toBytes) := oct_text (by decide) hd.chksum_lt
  have hsize' : oct (cstring (text 12 (formatOctal 11 size))) = size := oct_text (by decide) (by omega)
  have hne : h.toBytes ≠ zeros 512 := by
    intro he
    have hflag := hd.typeflag_byte
    rw [he] at hflag
    cases hflag
  simp only [getScratchHeader, if_neg hne, hd.magic_field, hd.version_field, hd.chksum_field, hchksum,
    calcUstarChksum_eq hd.sized.length, hd.typeflag_field, hd.size_field, hsize', ne_eq,
    not_true_eq_false, if_false]
  exact if_neg (not_not.mpr rfl)

theorem archive_headers_cross_read :
    (∀ (name : List Byte) (size : Nat), name.length ≤ 99 → 0 ∉ name → size ≤ intMax →
      ∃ header, putScratchHeader name size = some header ∧ header.length = 512 ∧
        ustarParseHeader header = .ok (.file (stripAntisocialPrefixes name) .regular size)) ∧
    ∀ (fileName header : List Byte) (size : Nat), size ≤ intMax →
      ustarMakeHeader fileName .regular size = some header →
        header.length = 512 ∧ getScratchHeader header = some (.ok size) := by
  constructor
  · intro name size hname hzero hsize
    obtain ⟨hdr, hput, hd⟩ := putScratchHeader_heads hname hsize
    exact ⟨hdr.toBytes, hput, hd.sized.length, hd.parse hname hzero hsize⟩
  · intro fileName header size hsize hmake
    obtain ⟨-, hdr, rfl, hd⟩ := ustarMakeHeader_heads hsize hmake
    exact ⟨hd.sized.length, getScratchHeader_eq hd hsize⟩

theorem archive_headers_cross_read_at_echo :
    (∃ header, putScratchHeader [0x2e, 0x2f, 0x65] 700 = some header ∧
      ustarParseHeader header = .ok (.file (stripAntisocialPrefixes [0x2e, 0x2f, 0x65]) .regular 700)) ∧
    ∃ header, ustarMakeHeader [0x65] .regular 700 = some header ∧
      getScratchHeader header = some (.ok 700) := by
  constructor
  · obtain ⟨header, hput, -, hparse⟩ :=
      archive_headers_cross_read.1 [0x2e, 0x2f, 0x65] 700 (by decide) (by decide) (by decide)
    exact ⟨header, hput, hparse⟩
  · obtain ⟨header, hmake⟩ : ∃ header, ustarMakeHeader [0x65] .regular 700 = some header :=
      ⟨_, if_neg (by rw [stripAntisocialPrefixes_self (by decide) (by decide) (by decide)]; decide)⟩
    exact ⟨header, hmake, (archive_headers_cross_read.2 _ _ 700 (by decide) hmake).2⟩

end Pintos.Host
