import Pintos.Foundation.Octal
import Pintos.Foundation.Records
import Pintos.Kernel.Machine

/-! Archive headers in ustar format, as the kernel writes and reads them. -/

namespace Pintos.Lib

open Pintos.Foundation Pintos.Kernel

def slash : Byte := 0x2f

def dot : Byte := 0x2e

def ustarHeaderSize : Nat := 512

def intMax : Nat := 2147483647

inductive UstarType
  | regular
  | directory
  deriving DecidableEq, Repr

def UstarType.byte : UstarType → Byte
  | .regular => 0x30
  | .directory => 0x35

structure UstarHeader where
  name : List Byte
  mode : List Byte
  uid : List Byte
  gid : List Byte
  size : List Byte
  mtime : List Byte
  chksum : List Byte
  typeflag : Byte
  linkname : List Byte
  magic : List Byte
  version : List Byte
  uname : List Byte
  gname : List Byte
  devmajor : List Byte
  devminor : List Byte
  namePrefix : List Byte
  padding : List Byte

def UstarHeader.fields (h : UstarHeader) : List (List Byte) :=
  [h.name, h.mode, h.uid, h.gid, h.size, h.mtime, h.chksum, [h.typeflag], h.linkname, h.magic, h.version,
    h.uname, h.gname, h.devmajor, h.devminor, h.namePrefix, h.padding]

def UstarHeader.toBytes (h : UstarHeader) : List Byte := h.fields.flatten

def calculateChksum (header : List Byte) : Nat :=
  wrap ((List.range ustarHeaderSize).map fun i =>
    if 148 ≤ i ∧ i < 156 then 0x20 else (header.getD i 0).toNat).sum

def antisocial (fileName : List Byte) : Bool :=
  [slash].isPrefixOf fileName || [dot, slash].isPrefixOf fileName || [dot, dot, slash].isPrefixOf fileName

def stripPrefixes (fileName : List Byte) : List Byte :=
  if antisocial fileName then stripPrefixes ((fileName.dropWhile fun c => c ≠ slash).drop 1) else fileName
termination_by fileName.length
decreasing_by
  have hne : fileName ≠ [] := by
    rintro rfl
    contradiction
  have hlen := List.length_pos_iff.mpr hne
  have hdrop := (List.dropWhile_suffix (l := fileName) fun c => c ≠ slash).length_le
  rw [List.length_drop]
  omega

def stripAntisocialPrefixes (fileName : List Byte) : List Byte :=
  let fileName := stripPrefixes fileName
  if fileName = [] ∨ fileName = [dot, dot] then [dot] else fileName

def text (size : Nat) (s : List Byte) : List Byte := padded size (s.take (size - 1))

def zeros (n : Nat) : List Byte := List.replicate n 0

def ustarFields (fileName : List Byte) (type : UstarType) (size : Int) (chksum : List Byte) : UstarHeader where
  name := text 100 fileName
  mode := text 8 (formatOctal 7 (match type with | .regular => 0o644 | .directory => 0o755))
  uid := text 8 (List.replicate 7 0x30)
  gid := text 8 (List.replicate 7 0x30)
  size := text 12 (formatOctal 11 (ofInt32 size))
  mtime := text 12 (formatOctal 11 1136102400)
  chksum := chksum
  typeflag := type.byte
  linkname := zeros 100
  magic := text 6 [0x75, 0x73, 0x74, 0x61, 0x72]
  version := [0x30, 0x30]
  uname := text 32 [0x72, 0x6f, 0x6f, 0x74]
  gname := text 32 [0x72, 0x6f, 0x6f, 0x74]
  devmajor := zeros 8
  devminor := zeros 8
  namePrefix := zeros 155
  padding := zeros 12

def ustarMakeHeader (fileName : List Byte) (type : UstarType) (size : Int) : Option (List Byte) :=
  let fileName := stripAntisocialPrefixes fileName
  if 99 < fileName.length then none
  else
    let h := ustarFields fileName type size (zeros 8)
    some ({ h with chksum := text 8 (formatOctal 7 (calculateChksum h.toBytes)) } : UstarHeader).toBytes

def parseOctalLoop : List Byte → Nat → Nat → Option Nat
  | [], _, _ => none
  | c :: rest, ofs, value =>
    if 0x30 ≤ c.toNat ∧ c.toNat ≤ 0x37 then
      if 4294967295 / 8 < value then none
      else parseOctalLoop rest (ofs + 1) (c.toNat - 0x30 + value * 8)
    else if c = 0x20 ∨ c = 0 then if 0 < ofs then some value else none
    else none

def parseOctalField (s : List Byte) : Option Nat := parseOctalLoop s 0 0

inductive UstarError
  | notUstar
  | invalidVersion
  | corruptChksum
  | checksumMismatch
  | nameTooLong
  | unimplementedType
  | corruptSize
  | tooLarge
  deriving DecidableEq, Repr

inductive UstarEntry
  | eof
  | file (name : List Byte) (type : UstarType) (size : Nat)
  deriving DecidableEq, Repr

def ustarTypeOf (typeflag : Byte) : Option UstarType :=
  if typeflag = UstarType.byte .regular then some .regular
  else if typeflag = UstarType.byte .directory then some .directory
  else none

def ustarParseSize (header : List Byte) : UstarType → Except UstarError Nat
  | .regular =>
    match parseOctalField (field header 124 12) with
    | none => .error .corruptSize
    | some size => if intMax < size then .error .tooLarge else .ok size
  | .directory => .ok 0

def ustarParseHeader (header : List Byte) : Except UstarError UstarEntry :=
  if (header.take ustarHeaderSize).all fun b => b = 0 then .ok .eof
  else if field header 257 6 ≠ [0x75, 0x73, 0x74, 0x61, 0x72, 0] then .error .notUstar
  else if field header 263 2 ≠ [0x30, 0x30] then .error .invalidVersion
  else match parseOctalField (field header 148 8) with
    | none => .error .corruptChksum
    | some chksum =>
      if chksum ≠ calculateChksum header then .error .checksumMismatch
      else if header.getD 99 0 ≠ 0 ∨ header.getD 345 0 ≠ 0 then .error .nameTooLong
      else match ustarTypeOf (header.getD 156 0) with
        | none => .error .unimplementedType
        | some type => do
          let size ← ustarParseSize header type
          return .file (stripAntisocialPrefixes (cstring (field header 0 100))) type size

section Fields

def ustarLengths : List Nat := [100, 8, 8, 8, 12, 12, 8, 1, 100, 6, 2, 32, 32, 8, 8, 155, 12]

def UstarHeader.Sized (h : UstarHeader) : Prop := h.fields.map List.length = ustarLengths

variable {h : UstarHeader} {f : List Byte} {i len : Nat}

lemma UstarHeader.Sized.length_field (hs : h.Sized)
    (hf : h.fields[i]? = some f) (hlen : ustarLengths[i]? = some len) : f.length = len := by
  have hmap := congrArg (fun l => l[i]?) hs
  rw [List.getElem?_map, hf, hlen] at hmap
  exact Option.some.inj hmap

lemma UstarHeader.Sized.field (hs : h.Sized) {ofs : Nat}
    (hf : h.fields[i]? = some f) (hofs : (ustarLengths.take i).sum = ofs)
    (hlen : ustarLengths[i]? = some len) : field h.toBytes ofs len = f := by
  refine field_flatten_of_eq hf ?_ (hs.length_field hf hlen)
  rw [List.map_take, hs, hofs]

lemma UstarHeader.Sized.length (hs : h.Sized) : h.toBytes.length = 512 := by
  rw [UstarHeader.toBytes, List.length_flatten, hs]
  rfl

lemma UstarHeader.Sized.byte (hs : h.Sized) {ofs k : Nat}
    (hf : h.fields[i]? = some f) (hofs : (ustarLengths.take i).sum = ofs)
    (hlen : ustarLengths[i]? = some len) (hk : k < len) : h.toBytes.getD (ofs + k) 0 = f.getD k 0 := by
  rw [← hs.field hf hofs hlen, getD_field _ hk]

def blanked (header : List Byte) : List Byte := header.take 148 ++ List.replicate 8 0x20 ++ header.drop 156

lemma replace_chksum (hs : h.Sized) (chksum : List Byte) :
    h.toBytes.take 148 ++ chksum ++ h.toBytes.drop 156 =
      ({ h with chksum := chksum } : UstarHeader).toBytes := by
  let before := [h.name, h.mode, h.uid, h.gid, h.size, h.mtime].flatten
  let after := [[h.typeflag], h.linkname, h.magic, h.version, h.uname, h.gname, h.devmajor, h.devminor,
    h.namePrefix, h.padding].flatten
  have hsplit : h.toBytes = before ++ (h.chksum ++ after) := by
    simp [UstarHeader.toBytes, UstarHeader.fields, before, after]
  have hbefore : before.length = 148 := by
    have hsum := congrArg (fun l => (l.take 6).sum) hs
    rw [← List.map_take] at hsum
    simpa [before, UstarHeader.fields, ustarLengths, Nat.add_assoc] using hsum
  have hchksum : h.chksum.length = 8 := hs.length_field (i := 6) rfl rfl
  rw [hsplit, List.take_left' hbefore, ← List.append_assoc before,
    List.drop_left' (by simp [hbefore, hchksum])]
  simp [UstarHeader.toBytes, UstarHeader.fields, before, after]

lemma blanked_toBytes (hs : h.Sized) : blanked h.toBytes =
    ({ h with chksum := List.replicate 8 0x20 } : UstarHeader).toBytes :=
  replace_chksum hs _

end Fields

def byteSum (bs : List Byte) : Nat := (bs.map BitVec.toNat).sum

lemma byteSum_le (bs : List Byte) : byteSum bs ≤ 255 * bs.length := by
  induction bs with
  | nil => exact Nat.le_refl 0
  | cons b bs ih =>
    have hb := b.isLt
    rw [byteSum] at ih ⊢
    rw [List.map_cons, List.sum_cons, List.length_cons]
    omega

lemma calculateChksum_eq {header : List Byte} (h : header.length = 512) :
    calculateChksum header = byteSum (blanked header) := by
  have hlen : (blanked header).length = 512 := by
    simp [blanked, h]
  have hmap : ((List.range ustarHeaderSize).map fun i =>
      if 148 ≤ i ∧ i < 156 then 0x20 else (header.getD i 0).toNat) = (blanked header).map BitVec.toNat := by
    apply List.ext_getElem
    · simp [hlen, ustarHeaderSize]
    · intro i hi hi'
      rw [List.length_map, hlen] at hi'
      rw [List.getElem_map, List.getElem_map, List.getElem_range, List.getD_eq_getElem _ _ (by omega)]
      simp only [blanked, List.append_assoc]
      by_cases h1 : i < 148
      · rw [if_neg (by omega), List.getElem_append_left (by simp; omega), List.getElem_take]
      · by_cases h2 : i < 156
        · rw [if_pos (by omega), List.getElem_append_right (by simp; omega),
            List.getElem_append_left (by simp; omega), List.getElem_replicate]
          rfl
        · rw [if_neg (by omega), List.getElem_append_right (by simp; omega),
            List.getElem_append_right (by simp; omega), List.getElem_drop]
          congr 2
          simp [h]
          omega
  have hle := byteSum_le (blanked header)
  rw [calculateChksum, hmap]
  apply wrap_of_lt
  rw [byteSum] at hle
  omega

lemma text_formatOctal {width v : Nat} (hw : 0 < width) (h : v < 8 ^ width) :
    text (width + 1) (formatOctal width v) = formatOctal width v ++ [0] := by
  have hlen := length_formatOctal hw h
  rw [text, Nat.add_sub_cancel, List.take_of_length_le (Nat.le_of_eq hlen), padded_of_le (by omega), hlen,
    Nat.add_sub_cancel_left]
  rfl

lemma le_octValue (start : Nat) (ds : List Nat) : start ≤ octValue start ds := by
  induction ds generalizing start with
  | nil => exact le_rfl
  | cons d ds ih =>
    have hle := ih (d + start * 8)
    change start ≤ octValue (d + start * 8) ds
    omega

lemma parseOctalLoop_eq {ds : List Nat} (hds : ∀ d ∈ ds, d < 8) {ofs value : Nat}
    (hlt : octValue value ds < 4294967296) (hsome : 0 < ofs + ds.length) :
    parseOctalLoop (ds.map octDigit ++ [0]) ofs value = some (octValue value ds) := by
  induction ds generalizing ofs value with
  | nil => exact if_pos hsome
  | cons d ds ih =>
    have hd := octDigit_toNat (hds d List.mem_cons_self)
    have hd8 := hds d List.mem_cons_self
    have hstep : octValue value (d :: ds) = octValue (d + value * 8) ds := rfl
    have hle := le_octValue (d + value * 8) ds
    rw [hstep] at hlt ⊢
    rw [List.map_cons, List.cons_append, parseOctalLoop, if_pos (by omega), if_neg (by omega), hd,
      Nat.add_sub_cancel_left]
    exact ih (fun e he => hds e (List.mem_cons_of_mem _ he)) hlt (by omega)

lemma parseOctalField_text {width v : Nat} (hw : 0 < width) (h : v < 8 ^ width) (hv : v < 4294967296) :
    parseOctalField (text (width + 1) (formatOctal width v)) = some v := by
  obtain ⟨ds, hformat, hlen, hds, hvalue⟩ := formatOctal_spec hw h
  rw [text_formatOctal hw h, hformat, parseOctalField,
    parseOctalLoop_eq hds (by omega) (by omega), hvalue]

structure UstarHeader.Heads (h : UstarHeader) (name : List Byte) (type : UstarType) (size : Nat) : Prop where
  sized : h.Sized
  name_eq : h.name = padded 100 name
  size_eq : h.size = text 12 (formatOctal 11 size)
  chksum_eq : h.chksum = text 8 (formatOctal 7 (byteSum (blanked h.toBytes)))
  typeflag_eq : h.typeflag = type.byte
  magic_eq : h.magic = [0x75, 0x73, 0x74, 0x61, 0x72, 0]
  version_eq : h.version = [0x30, 0x30]
  prefix_eq : h.namePrefix = zeros 155

def UstarType.sizeRead : UstarType → Nat → Nat
  | .regular, size => size
  | .directory, _ => 0

lemma ustarTypeOf_byte (type : UstarType) : ustarTypeOf type.byte = some type := by
  cases type with
  | regular => decide
  | directory => decide

namespace UstarHeader.Heads

variable {h : UstarHeader} {name : List Byte} {type : UstarType} {size : Nat} (hd : h.Heads name type size)

include hd

lemma magic_field : field h.toBytes 257 6 = [0x75, 0x73, 0x74, 0x61, 0x72, 0] :=
  (hd.sized.field (i := 9) rfl rfl rfl).trans hd.magic_eq

lemma version_field : field h.toBytes 263 2 = [0x30, 0x30] :=
  (hd.sized.field (i := 10) rfl rfl rfl).trans hd.version_eq

lemma chksum_field : field h.toBytes 148 8 = text 8 (formatOctal 7 (byteSum (blanked h.toBytes))) :=
  (hd.sized.field (i := 6) rfl rfl rfl).trans hd.chksum_eq

lemma size_field : field h.toBytes 124 12 = text 12 (formatOctal 11 size) :=
  (hd.sized.field (i := 4) rfl rfl rfl).trans hd.size_eq

lemma name_field : field h.toBytes 0 100 = padded 100 name :=
  (hd.sized.field (i := 0) rfl rfl rfl).trans hd.name_eq

lemma typeflag_field : field h.toBytes 156 1 = [type.byte] :=
  (hd.sized.field (i := 7) rfl rfl rfl).trans (by rw [hd.typeflag_eq])

lemma typeflag_byte : h.toBytes.getD 156 0 = type.byte :=
  (hd.sized.byte (i := 7) (k := 0) rfl rfl rfl Nat.one_pos).trans hd.typeflag_eq

lemma prefix_byte : h.toBytes.getD 345 0 = 0 :=
  (hd.sized.byte (i := 15) (k := 0) rfl rfl rfl (by decide)).trans (by rw [hd.prefix_eq]; rfl)

lemma name_end (hname : name.length ≤ 99) : h.toBytes.getD 99 0 = 0 := by
  have hbyte : h.toBytes.getD 99 0 = h.name.getD 99 0 :=
    hd.sized.byte (i := 0) (k := 99) rfl rfl rfl (by decide)
  rw [hbyte, hd.name_eq, padded_of_le (by omega), List.getD_append_right _ _ _ _ hname,
    List.getD_eq_getElem _ _ (by rw [List.length_replicate]; omega), List.getElem_replicate]

lemma not_zeros : ((h.toBytes.take ustarHeaderSize).all fun b => b = 0) = false := by
  have hlen := hd.sized.length
  rw [List.all_eq_false, ustarHeaderSize, List.take_of_length_le (Nat.le_of_eq hlen)]
  refine ⟨h.toBytes.getD 156 0, ?_, ?_⟩
  · rw [List.getD_eq_getElem _ _ (by omega)]
    exact List.getElem_mem _
  · rw [hd.typeflag_byte]
    cases type <;> decide

lemma chksum_lt : byteSum (blanked h.toBytes) < 8 ^ 7 := by
  have hle := byteSum_le (blanked h.toBytes)
  have hlen : (blanked h.toBytes).length = 512 := by
    simp [blanked, hd.sized.length]
  omega

lemma parseSize (hsize : size ≤ intMax) : ustarParseSize h.toBytes type = .ok (type.sizeRead size) := by
  cases type with
  | directory => rfl
  | regular =>
    have hmax := hsize
    simp only [intMax] at hmax
    have hparse : parseOctalField (text 12 (formatOctal 11 size)) = some size :=
      parseOctalField_text (by decide) (by omega) (by omega)
    simp only [ustarParseSize, hd.size_field, hparse, if_neg (Nat.not_lt.mpr hsize)]
    rfl

lemma parse (hname : name.length ≤ 99) (hzero : 0 ∉ name) (hsize : size ≤ intMax) : ustarParseHeader h.toBytes =
      .ok (.file (stripAntisocialPrefixes name) type (type.sizeRead size)) := by
  have hlt := hd.chksum_lt
  have hparse : parseOctalField (text 8 (formatOctal 7 (byteSum (blanked h.toBytes)))) =
      some (byteSum (blanked h.toBytes)) :=
    parseOctalField_text (by decide) hlt (by omega)
  have hok : ¬ (h.toBytes.getD 99 0 ≠ 0 ∨ h.toBytes.getD 345 0 ≠ 0) := by
    rw [hd.name_end hname, hd.prefix_byte]
    decide
  have htype : ustarTypeOf (h.toBytes.getD 156 0) = some type := by
    rw [hd.typeflag_byte, ustarTypeOf_byte]
  simp only [ustarParseHeader, hd.not_zeros, Bool.false_eq_true, if_false, hd.magic_field,
    hd.version_field, ne_eq, not_true_eq_false, hd.chksum_field, hparse,
    calculateChksum_eq hd.sized.length, htype, hd.parseSize hsize, bind_ok, hd.name_field]
  rw [if_neg hok, cstring_padded hzero (by omega)]
  rfl

end UstarHeader.Heads

lemma length_text (n : Nat) (s : List Byte) : (text n s).length = n := length_padded _ _

lemma ustarFields_sized (fileName : List Byte) (type : UstarType) (size : Int) {chksum : List Byte}
    (h : chksum.length = 8) : (ustarFields fileName type size chksum).Sized := by
  simp [UstarHeader.Sized, UstarHeader.fields, ustarFields, length_text, zeros, h, ustarLengths]

lemma ustarFields_chksum (fileName : List Byte) (type : UstarType) (size : Int) (c d : List Byte) :
    ({ ustarFields fileName type size c with chksum := d } : UstarHeader) =
      ustarFields fileName type size d := rfl

variable {fileName header : List Byte}

lemma text_name (h : fileName.length ≤ 99) : text 100 fileName = padded 100 fileName := by
  rw [text, List.take_of_length_le (by omega)]

lemma length_ustarMakeHeader {type : UstarType} {size : Int}
    (h : ustarMakeHeader fileName type size = some header) : header.length = 512 := by
  rw [ustarMakeHeader, Option.ite_none_left_eq_some, Option.some.injEq] at h
  rw [← h.2]
  exact (ustarFields_sized _ type size (length_text _ _)).length

lemma ustarMakeHeader_heads {type : UstarType} {size : Nat} (hsize : size ≤ intMax)
    (h : ustarMakeHeader fileName type size = some header) :
    (stripAntisocialPrefixes fileName).length ≤ 99 ∧ ∃ hdr : UstarHeader, header = hdr.toBytes ∧
      hdr.Heads (stripAntisocialPrefixes fileName) type size := by
  simp only [intMax] at hsize
  rw [ustarMakeHeader, Option.ite_none_left_eq_some, Option.some.injEq] at h
  obtain ⟨hlen, rfl⟩ := h
  let name := stripAntisocialPrefixes fileName
  let blank := ustarFields name type size (zeros 8)
  let filled := ustarFields name type size (text 8 (formatOctal 7 (calculateChksum blank.toBytes)))
  have hblank : blank.Sized := ustarFields_sized _ _ _ rfl
  have hfilled : filled.Sized := ustarFields_sized _ _ _ (length_text _ _)
  have hsum : calculateChksum blank.toBytes = byteSum (blanked filled.toBytes) := by
    rw [calculateChksum_eq hblank.length, blanked_toBytes hblank, blanked_toBytes hfilled,
      ustarFields_chksum, ustarFields_chksum]
  have hmagic : text 6 [0x75, 0x73, 0x74, 0x61, 0x72] = [0x75, 0x73, 0x74, 0x61, 0x72, 0] := by decide
  have hname : text 100 name = padded 100 name := text_name (Nat.le_of_not_lt hlen)
  refine ⟨Nat.le_of_not_lt hlen, filled, rfl, hfilled, hname, ?_, ?_, rfl, hmagic, rfl, rfl⟩
  · change text 12 (formatOctal 11 (ofInt32 size)) = _
    rw [ofInt32_natCast (by omega)]
  · rw [← hsum]
    rfl

lemma antisocial_stripPrefixes (fileName : List Byte) : antisocial (stripPrefixes fileName) = false := by
  fun_induction stripPrefixes fileName with
  | case1 fileName h ih => exact ih
  | case2 fileName h => simpa using h

lemma stripPrefixes_suffix (fileName : List Byte) : stripPrefixes fileName <:+ fileName := by
  fun_induction stripPrefixes fileName with
  | case1 fileName h ih => exact ih.trans ((List.drop_suffix _ _).trans (List.dropWhile_suffix _))
  | case2 fileName h => exact List.suffix_rfl

lemma stripAntisocialPrefixes_social (fileName : List Byte) :
    antisocial (stripAntisocialPrefixes fileName) = false ∧ stripAntisocialPrefixes fileName ≠ [] ∧
      stripAntisocialPrefixes fileName ≠ [dot, dot] := by
  simp only [stripAntisocialPrefixes]
  split
  · decide
  · next h => exact ⟨antisocial_stripPrefixes fileName, not_or.mp h⟩

lemma stripAntisocialPrefixes_self (h : antisocial fileName = false)
    (hne : fileName ≠ []) (hdots : fileName ≠ [dot, dot]) : stripAntisocialPrefixes fileName = fileName := by
  have hstrip : stripPrefixes fileName = fileName := by
    rw [stripPrefixes, h]
    rfl
  rw [stripAntisocialPrefixes, hstrip]
  exact if_neg (not_or.mpr ⟨hne, hdots⟩)

lemma stripAntisocialPrefixes_idem (fileName : List Byte) :
    stripAntisocialPrefixes (stripAntisocialPrefixes fileName) = stripAntisocialPrefixes fileName := by
  obtain ⟨hsocial, hne, hdots⟩ := stripAntisocialPrefixes_social fileName
  exact stripAntisocialPrefixes_self hsocial hne hdots

lemma zero_notMem_strip (h : 0 ∉ fileName) : 0 ∉ stripAntisocialPrefixes fileName := by
  simp only [stripAntisocialPrefixes]
  split
  · decide
  · exact fun hin => h ((stripPrefixes_suffix fileName).subset hin)

theorem ustar_header_round_trip (fileName : List Byte) (hzero : 0 ∉ fileName) (type : UstarType) (size : Nat)
    (hsize : size ≤ intMax) :
    (∀ header, ustarMakeHeader fileName type size = some header →
      ustarParseHeader header = .ok (.file (stripAntisocialPrefixes fileName) type (type.sizeRead size))) ∧
      (ustarMakeHeader fileName type size = none ↔ 99 < (stripAntisocialPrefixes fileName).length) := by
  constructor
  · intro header hmake
    obtain ⟨hlen, hdr, rfl, hd⟩ := ustarMakeHeader_heads hsize hmake
    rw [hd.parse hlen (zero_notMem_strip hzero) hsize, stripAntisocialPrefixes_idem]
  · rw [ustarMakeHeader]
    split
    · next h => exact iff_of_true rfl h
    · next h => exact iff_of_false (Option.some_ne_none _) h

theorem ustar_header_round_trip_directory :
    (∃ header, ustarMakeHeader [dot, slash, 0x65] .directory 700 = some header ∧
      ustarParseHeader header = .ok (.file [0x65] .directory 0)) ∧
      ustarMakeHeader (List.replicate 100 0x65) .regular 700 = none := by
  have hstrip : stripAntisocialPrefixes [dot, slash, 0x65] = [0x65] := by
    rw [stripAntisocialPrefixes, stripPrefixes, stripPrefixes]
    decide
  have hlong : stripAntisocialPrefixes (List.replicate 100 0x65) = List.replicate 100 0x65 :=
    stripAntisocialPrefixes_self (by decide) (by decide) (by decide)
  obtain ⟨hparse, hnone⟩ := ustar_header_round_trip [dot, slash, 0x65] (by decide) .directory 700 (by decide)
  obtain ⟨-, hfail⟩ := ustar_header_round_trip (List.replicate 100 0x65) (by decide) .regular 700 (by decide)
  rw [hstrip] at hparse hnone
  refine ⟨?_, hfail.mpr (by rw [hlong]; decide)⟩
  obtain ⟨header, hmake⟩ := Option.ne_none_iff_exists'.mp fun h => absurd (hnone.mp h) (by decide)
  exact ⟨header, hmake, hparse header hmake⟩

end Pintos.Lib
