import Mathlib.Data.List.Nodup
import Pintos.Foundation.Records

/-! The disk images that the host scripts assemble. -/

namespace Pintos.Host

open Pintos.Foundation

inductive Role
  | kernel
  | filesys
  | scratch
  | swap
  deriving DecidableEq, Repr

def role2type : Role → Nat
  | .kernel => 0x20
  | .filesys => 0x21
  | .scratch => 0x22
  | .swap => 0x23

def roleOrder : List Role := [.kernel, .filesys, .scratch, .swap]

def type2role (type : Nat) : Option Role := roleOrder.find? fun role => role2type role = type

structure Geometry where
  heads : Nat
  sectors : Nat
  deriving DecidableEq, Repr

def defaultGeometry : Geometry := ⟨16, 63⟩

inductive Align
  | bochs
  | full
  | none
  deriving DecidableEq, Repr

inductive Format
  | partitioned
  | raw
  deriving DecidableEq, Repr

def loaderSize : Nat := 314

def divRoundUp (x y : Nat) : Nat := (x + y - 1) / y

def roundUp (x y : Nat) : Nat := divRoundUp x y * y

def cylSectors (g : Geometry) : Nat := g.heads * g.sectors

structure Part where
  role : Role
  start : Nat
  sectors : Nat
  deriving DecidableEq, Repr

def lbaToChs (lba : Nat) (g : Geometry) : Nat × Nat × Nat :=
  let cyl := lba / (g.heads * g.sectors)
  let temp := lba % (g.heads * g.sectors)
  let head := temp / g.sectors
  let sect := temp % g.sectors + 1
  if cyl ≤ 1023 then (cyl, head, sect) else (1023, 254, 63)

def packChs (lba : Nat) (g : Geometry) : List Byte :=
  let (cyl, head, sect) := lbaToChs lba g
  [.ofNat 8 head, .ofNat 8 (sect ||| ((cyl >>> 2) &&& 0xc0)), .ofNat 8 (cyl &&& 0xff)]

def tableEntry (g : Geometry) (p : Part) : List Byte :=
  [[if p.role = .kernel then 0x80 else 0], packChs p.start g, [.ofNat 8 (role2type p.role)],
    packChs (p.start + p.sectors - 1) g, word p.start, word p.sectors].flatten

def makePartitionTable (g : Geometry) (parts : List Part) : List Byte :=
  padded 64 (parts.map (tableEntry g)).flatten

/-- Dies, like the script, when the arguments need more than 128 bytes. -/
def makeKernelCommandLine (args : List (List Byte)) : Option (List Byte) :=
  let line := (args.map fun arg => arg ++ [0]).flatten
  if 128 < line.length then none else some (word args.length ++ padded 128 line)

abbrev Sources := Role → Option (List Byte)

def partEnd (g : Geometry) (align : Bool) (start : Nat) (bytes : List Byte) : Nat :=
  let stop := start + divRoundUp bytes.length 512
  if align then roundUp stop (cylSectors g) else stop

def place (g : Geometry) (align : Bool) (sources : Sources) : List Role → Nat → List Part × Nat
  | [], total => ([], total)
  | role :: roles, start =>
    match sources role with
    | .none => place g align sources roles start
    | .some bytes =>
      let stop := partEnd g align start bytes
      let (parts, total) := place g align sources roles stop
      (⟨role, start, stop - start⟩ :: parts, total)

structure DiskArgs where
  align : Align
  format : Format
  geometry : Geometry
  loader : Option (List Byte)
  args : List (List Byte)
  sources : Sources

def DiskArgs.aligned (a : DiskArgs) : Bool := a.align = .full

def DiskArgs.padded (a : DiskArgs) : Bool := a.align = .bochs

def DiskArgs.firstSector (a : DiskArgs) : Nat :=
  match a.format with
  | .partitioned => if a.aligned then a.geometry.sectors else 1
  | .raw => 0

def DiskArgs.layout (a : DiskArgs) : List Part × Nat :=
  place a.geometry a.aligned a.sources roleOrder a.firstSector

def makeMbr (a : DiskArgs) (parts : List Part) : Option (List Byte) := do
  let line ← makeKernelCommandLine a.args
  return [Foundation.padded loaderSize (a.loader.getD [0xcd, 0x18]), line,
    makePartitionTable a.geometry parts, [0x55, 0xaa]].flatten

def partitionBytes (a : DiskArgs) (p : Part) : List Byte :=
  let bytes := (a.sources p.role).getD []
  bytes ++ List.replicate (p.sectors * 512 - bytes.length) 0

def diskBytes (a : DiskArgs) (mbr : List Byte) (parts : List Part) (total : Nat) : List Byte :=
  [match a.format with
    | .partitioned => mbr ++ if a.aligned then List.replicate (512 * (a.geometry.sectors - 1)) 0 else []
    | .raw => [],
   (parts.map (partitionBytes a)).flatten,
   if a.padded then List.replicate ((roundUp total (cylSectors a.geometry) - total) * 512) 0
   else []].flatten

def assembleDisk (a : DiskArgs) : Option (List Part × List Byte) := do
  let (parts, total) := a.layout
  if a.format = .raw ∧ parts.length ≠ 1 then none
  else
    let mbr ← match a.format with
      | .partitioned => makeMbr a parts
      | .raw => some []
    return (parts, diskBytes a mbr parts total)

def readMbr (disk : List Byte) : Option (List Byte) :=
  if 512 ≤ disk.length ∧ field disk 510 2 = [0x55, 0xaa] then some (disk.take 512) else none

def interpretEntry (entry : List Byte) (parts : List Part) : List Part :=
  let bootable := entry.getD 0 0
  let valid := wordOf entry
  let type := (entry.getD 4 0).toNat
  if valid = 0 then parts
  else if bootable ≠ 0 ∧ bootable ≠ 0x80 then parts
  else match type2role type with
    | .none => parts
    | .some role =>
      if parts.any fun p => p.role = role then parts
      else parts ++ [⟨role, wordOf (entry.drop 8), wordOf (entry.drop 12)⟩]

def tableEntries (mbr : List Byte) : List (List Byte) :=
  [0, 1, 2, 3].map fun i => field mbr (446 + 16 * i) 16

def interpretPartitionTable (mbr : List Byte) : List Part :=
  (tableEntries mbr).foldl (fun parts entry => interpretEntry entry parts) []

def readPartitionTable (disk : List Byte) : Option (List Part) :=
  (readMbr disk).map interpretPartitionTable

variable {a : DiskArgs} {args : List (List Byte)} {mbr : List Byte} {parts : List Part}

lemma length_makeKernelCommandLine {line : List Byte}
    (h : makeKernelCommandLine args = some line) : line.length = 132 := by
  rw [makeKernelCommandLine, Option.ite_none_left_eq_some, Option.some.injEq] at h
  rw [← h.2, List.length_append, length_padded, length_word]

lemma makeMbr_eq_some (h : makeMbr a parts = some mbr) : ∃ line, makeKernelCommandLine a.args = some line ∧
      mbr = [Foundation.padded loaderSize (a.loader.getD [0xcd, 0x18]), line,
        makePartitionTable a.geometry parts, [0x55, 0xaa]].flatten := by
  obtain ⟨line, hline, h⟩ := Option.bind_eq_some_iff.mp h
  exact ⟨line, hline, (Option.some.inj h).symm⟩

lemma length_makeMbr (h : makeMbr a parts = some mbr) : mbr.length = 512 := by
  obtain ⟨line, hline, rfl⟩ := makeMbr_eq_some h
  simp [length_makeKernelCommandLine hline, makePartitionTable, loaderSize]

section Layout

variable {g : Geometry} {align : Bool} {sources : Sources}

lemma le_roundUp {x y : Nat} (hy : 0 < y) : x ≤ roundUp x y := by
  have hmod := Nat.div_add_mod (x + y - 1) y
  have hlt := Nat.mod_lt (x + y - 1) hy
  rw [roundUp, divRoundUp, Nat.mul_comm]
  omega

lemma le_partEnd (align : Bool) (hcyl : 0 < cylSectors g) (start : Nat) (bytes : List Byte) :
    512 * start + bytes.length ≤ 512 * partEnd g align start bytes := by
  have hstop : start + divRoundUp bytes.length 512 ≤ partEnd g align start bytes := by
    rw [partEnd]
    split
    · exact le_roundUp hcyl
    · exact le_rfl
  simp only [divRoundUp] at hstop
  omega

/-- The partitions lie one behind the other from `start` to `stop`, each with room for its contents. -/
inductive Tiles (sources : Sources) : Nat → Nat → List Part → Prop
  | nil (start : Nat) : Tiles sources start start []
  | cons {stop start sectors : Nat} {role : Role} {bytes : List Byte} {parts : List Part} :
    sources role = some bytes → bytes.length ≤ sectors * 512 →
    Tiles sources (start + sectors) stop parts →
    Tiles sources start stop (⟨role, start, sectors⟩ :: parts)

lemma place_tiles (hcyl : 0 < cylSectors g) (roles : List Role) (start : Nat) :
    Tiles sources start (place g align sources roles start).2 (place g align sources roles start).1 := by
  induction roles generalizing start with
  | nil => exact .nil start
  | cons role roles ih =>
    rw [place]
    split
    · exact ih start
    · next bytes hbytes =>
      have hend := le_partEnd align hcyl start bytes
      have hsum : start + (partEnd g align start bytes - start) = partEnd g align start bytes := by omega
      have hrest := ih (partEnd g align start bytes)
      refine .cons hbytes (by omega) ?_
      rw [hsum]
      exact hrest

lemma place_roles (roles : List Role) (start : Nat) :
    (place g align sources roles start).1.map Part.role = roles.filter fun r => (sources r).isSome := by
  induction roles generalizing start with
  | nil => rfl
  | cons role roles ih =>
    rw [place]
    split
    · next hnone =>
      rw [List.filter_cons_of_neg (by simp [hnone])]
      exact ih start
    · next bytes hbytes =>
      rw [List.filter_cons_of_pos (by simp [hbytes]), List.map_cons, ih]

end Layout

namespace Tiles

variable {sources : Sources} {start stop : Nat} (h : Tiles sources start stop parts)

include h

lemma le : start ≤ stop := by
  induction h with
  | nil => exact le_rfl
  | cons _ _ _ ih => omega

lemma bounds : ∀ p ∈ parts, start ≤ p.start ∧ p.start + p.sectors ≤ stop := by
  induction h with
  | nil => simp
  | cons _ _ hrest ih =>
    intro p hp
    rcases List.mem_cons.mp hp with rfl | hp
    · exact ⟨le_rfl, hrest.le⟩
    · obtain ⟨hlow, hhigh⟩ := ih p hp
      exact ⟨by omega, hhigh⟩

lemma ordered : parts.Pairwise fun p q => p.start + p.sectors ≤ q.start := by
  induction h with
  | nil => exact .nil
  | cons _ _ hrest ih => exact .cons (fun q hq => (hrest.bounds q hq).1) ih

lemma contents : ∀ p ∈ parts, ∃ bytes, sources p.role = some bytes ∧ bytes.length ≤ p.sectors * 512 := by
  induction h with
  | nil => simp
  | cons hbytes hle _ ih =>
    intro p hp
    rcases List.mem_cons.mp hp with rfl | hp
    · exact ⟨_, hbytes, hle⟩
    · exact ih p hp

end Tiles

lemma length_tableEntry (g : Geometry) (p : Part) : (tableEntry g p).length = 16 := rfl

def entriesOf (g : Geometry) (parts : List Part) : List (List Byte) :=
  parts.map (tableEntry g) ++ List.replicate (4 - parts.length) (List.replicate 16 0)

lemma length_flatten_entries (g : Geometry) (parts : List Part) :
    (parts.map (tableEntry g)).flatten.length = 16 * parts.length := by
  induction parts with
  | nil => rfl
  | cons p parts ih =>
    rw [List.map_cons, List.flatten_cons, List.length_append, length_tableEntry, ih, List.length_cons]
    omega

lemma makePartitionTable_eq (g : Geometry) (h : parts.length ≤ 4) :
    makePartitionTable g parts = (entriesOf g parts).flatten := by
  have hlen := length_flatten_entries g parts
  rw [makePartitionTable, padded_of_le (by omega), hlen, entriesOf, List.flatten_append,
    List.flatten_replicate_replicate]
  congr 2
  omega

lemma length_entriesOf (g : Geometry) (h : parts.length ≤ 4) : (entriesOf g parts).length = 4 := by
  rw [entriesOf, List.length_append, List.length_map, List.length_replicate]
  omega

lemma length_of_mem_entriesOf {g : Geometry} {e : List Byte} (he : e ∈ entriesOf g parts) : e.length = 16 := by
  rcases List.mem_append.mp he with he | he
  · obtain ⟨p, -, rfl⟩ := List.mem_map.mp he
    rfl
  · rw [(List.mem_replicate.mp he).2, List.length_replicate]

lemma tableEntries_makeMbr (h : makeMbr a parts = some mbr) (hparts : parts.length ≤ 4) :
    tableEntries mbr = entriesOf a.geometry parts ∧ field mbr 510 2 = [0x55, 0xaa] := by
  obtain ⟨line, hline, rfl⟩ := makeMbr_eq_some h
  have hlen := length_makeKernelCommandLine hline
  obtain ⟨e₀, e₁, e₂, e₃, hes⟩ : ∃ e₀ e₁ e₂ e₃, entriesOf a.geometry parts = [e₀, e₁, e₂, e₃] := by
    match entriesOf a.geometry parts, length_entriesOf a.geometry hparts with
    | [e₀, e₁, e₂, e₃], _ => exact ⟨e₀, e₁, e₂, e₃, rfl⟩
  have hmem : ∀ e ∈ [e₀, e₁, e₂, e₃], e.length = 16 := fun e he => length_of_mem_entriesOf (hes ▸ he)
  simp only [List.forall_mem_cons, List.not_mem_nil, false_implies, implies_true, and_true] at hmem
  obtain ⟨h₀, h₁, h₂, h₃⟩ := hmem
  let fields := [Foundation.padded loaderSize (a.loader.getD [0xcd, 0x18]), line, e₀, e₁, e₂, e₃,
    ([0x55, 0xaa] : List Byte)]
  have hflat : [Foundation.padded loaderSize (a.loader.getD [0xcd, 0x18]), line,
      makePartitionTable a.geometry parts, [0x55, 0xaa]].flatten = fields.flatten := by
    simp [makePartitionTable_eq a.geometry hparts, hes, fields]
  rw [hflat, hes, tableEntries]
  simp only [List.map_cons, List.map_nil, List.cons.injEq, and_true]
  refine ⟨⟨?_, ?_, ?_, ?_⟩, ?_⟩
  · exact field_flatten_of_eq (i := 2) rfl (by simp [fields, loaderSize, hlen]) h₀
  · exact field_flatten_of_eq (i := 3) rfl (by simp [fields, loaderSize, hlen, h₀]) h₁
  · exact field_flatten_of_eq (i := 4) rfl (by simp [fields, loaderSize, hlen, h₀, h₁]) h₂
  · exact field_flatten_of_eq (i := 5) rfl (by simp [fields, loaderSize, hlen, h₀, h₁, h₂]) h₃
  · exact field_flatten_of_eq (i := 6) rfl (by simp [fields, loaderSize, hlen, h₀, h₁, h₂, h₃]) rfl

section Entries

variable {p : Part} {g : Geometry}

lemma tableEntry_type : ((tableEntry g p).getD 4 0).toNat = role2type p.role := by
  change (BitVec.ofNat 8 (role2type p.role)).toNat = _
  cases p.role <;> rfl

lemma tableEntry_start (h : p.start < 4294967296) : wordOf ((tableEntry g p).drop 8) = p.start :=
  wordOf_word_append h (word p.sectors)

lemma tableEntry_sectors (h : p.sectors < 4294967296) : wordOf ((tableEntry g p).drop 12) = p.sectors :=
  wordOf_word_append h []

section

variable (hs : 0 < g.sectors) (h63 : g.sectors ≤ 63)

include hs h63

lemma lbaToChs_sect (lba : Nat) : 0 < (lbaToChs lba g).2.2 ∧ (lbaToChs lba g).2.2 < 64 := by
  have hmod := Nat.mod_lt (lba % (g.heads * g.sectors)) hs
  rw [lbaToChs]
  split
  · exact ⟨Nat.succ_pos _, Nat.succ_lt_succ (Nat.lt_of_lt_of_le hmod h63)⟩
  · exact ⟨by decide, by decide⟩

lemma tableEntry_valid : wordOf (tableEntry g p) ≠ 0 := by
  obtain ⟨hpos, hlt⟩ := lbaToChs_sect hs h63 p.start
  let high := ((lbaToChs p.start g).1 >>> 2) &&& 0xc0
  have hhigh : high < 2 ^ 8 := Nat.lt_of_le_of_lt Nat.and_le_right (by decide)
  have hor : (lbaToChs p.start g).2.2 ||| high < 2 ^ 8 := Nat.or_lt_two_pow (by omega) hhigh
  have hle : (lbaToChs p.start g).2.2 ≤ (lbaToChs p.start g).2.2 ||| high := Nat.left_le_or
  have hbyte : ((tableEntry g p).getD 2 0).toNat = (lbaToChs p.start g).2.2 ||| high :=
    Nat.mod_eq_of_lt hor
  rw [wordOf, hbyte]
  omega

lemma interpretEntry_tableEntry (hstart : p.start < 4294967296) (hsectors : p.sectors < 4294967296)
    (hnew : p.role ∉ parts.map Part.role) : interpretEntry (tableEntry g p) parts = parts ++ [p] := by
  have hboot : ¬ ((tableEntry g p).getD 0 0 ≠ 0 ∧ (tableEntry g p).getD 0 0 ≠ 0x80) := by
    change ¬ ((if p.role = .kernel then 0x80 else 0 : Byte) ≠ 0 ∧
      (if p.role = .kernel then 0x80 else 0 : Byte) ≠ 0x80)
    split <;> decide
  have hrole : type2role (role2type p.role) = some p.role := by
    cases p.role <;> rfl
  have hany : parts.any (fun q => q.role = p.role) = false := by
    rw [List.any_eq_false]
    intro q hq he
    exact hnew (List.mem_map.mpr ⟨q, hq, by simpa using he⟩)
  rw [interpretEntry]
  simp only [if_neg (tableEntry_valid hs h63), if_neg hboot, tableEntry_type, hrole, hany,
    tableEntry_start hstart, tableEntry_sectors hsectors, Bool.false_eq_true, if_false]

omit hs h63 in
lemma interpretEntry_zeros (parts : List Part) :
    interpretEntry (List.replicate 16 0) parts = parts := by
  rw [interpretEntry]
  exact if_pos (by decide)

lemma foldl_interpretEntry {acc : List Part} (hlt : ∀ p ∈ parts, p.start < 4294967296 ∧ p.sectors < 4294967296)
    (hnodup : ((acc ++ parts).map Part.role).Nodup) :
    (parts.map (tableEntry g)).foldl (fun ps e => interpretEntry e ps) acc = acc ++ parts := by
  induction parts generalizing acc with
  | nil => simp
  | cons p parts ih =>
    have hnew : p.role ∉ acc.map Part.role := by
      rw [List.map_append, List.map_cons, List.nodup_middle] at hnodup
      exact fun hmem => (List.nodup_cons.mp hnodup).1 (List.mem_append_left _ hmem)
    obtain ⟨hstart, hsectors⟩ := hlt p List.mem_cons_self
    rw [List.map_cons, List.foldl_cons, interpretEntry_tableEntry hs h63 hstart hsectors hnew,
      ih (fun q hq => hlt q (List.mem_cons_of_mem _ hq)) (by simpa using hnodup)]
    simp

end

lemma foldl_interpretEntry_zeros (n : Nat) (parts : List Part) :
    (List.replicate n (List.replicate 16 0)).foldl (fun ps e => interpretEntry e ps) parts = parts := by
  induction n with
  | zero => rfl
  | succ n ih => rw [List.replicate_succ, List.foldl_cons, interpretEntry_zeros, ih]

lemma interpretPartitionTable_makeMbr {a : DiskArgs} {mbr : List Byte}
    (h : makeMbr a parts = some mbr) (hparts : parts.length ≤ 4) (hs : 0 < a.geometry.sectors)
    (h63 : a.geometry.sectors ≤ 63)
    (hlt : ∀ p ∈ parts, p.start < 4294967296 ∧ p.sectors < 4294967296)
    (hnodup : (parts.map Part.role).Nodup) : interpretPartitionTable mbr = parts := by
  rw [interpretPartitionTable, (tableEntries_makeMbr h hparts).1, entriesOf, List.foldl_append,
    foldl_interpretEntry hs h63 hlt (by simpa using hnodup), foldl_interpretEntry_zeros]
  simp

end Entries

def DiskArgs.diskSectors (a : DiskArgs) : Nat :=
  if a.padded then roundUp a.layout.2 (cylSectors a.geometry) else a.layout.2

lemma Tiles.length_bytes {start stop : Nat} (h : Tiles a.sources start stop parts) :
    512 * start + (parts.map (partitionBytes a)).flatten.length = 512 * stop := by
  induction h with
  | nil => simp
  | cons hbytes hle _ ih =>
    rw [List.map_cons, List.flatten_cons, List.length_append, ← ih, partitionBytes, hbytes]
    simp only [Option.getD_some, List.length_append, List.length_replicate]
    omega

lemma assembleDisk_partitioned (hformat : a.format = .partitioned)
    {disk : List Byte} (h : assembleDisk a = some (parts, disk)) :
    ∃ mbr, parts = a.layout.1 ∧ makeMbr a parts = some mbr ∧
      disk = diskBytes a mbr parts a.layout.2 := by
  rw [assembleDisk] at h
  simp only [hformat, reduceCtorEq, false_and, if_false] at h
  obtain ⟨mbr, hmbr, h⟩ := Option.bind_eq_some_iff.mp h
  cases h
  exact ⟨mbr, rfl, hmbr, rfl⟩

lemma diskBytes_partitioned (hformat : a.format = .partitioned) (hmbr : mbr.length = 512)
    (hs : 0 < a.geometry.sectors)
    (hcyl : 0 < cylSectors a.geometry) (htiles : Tiles a.sources a.firstSector a.layout.2 parts) :
    (diskBytes a mbr parts a.layout.2).take 512 = mbr ∧
      (diskBytes a mbr parts a.layout.2).length = 512 * a.diskSectors := by
  have hlen := htiles.length_bytes
  have hround : a.layout.2 ≤ roundUp a.layout.2 (cylSectors a.geometry) := le_roundUp hcyl
  simp only [diskBytes, DiskArgs.diskSectors, DiskArgs.firstSector, hformat] at hlen ⊢
  constructor
  · rw [List.flatten_cons, List.append_assoc, List.take_append_of_le_length (by omega),
      List.take_of_length_le (by omega)]
  · cases ha : a.aligned <;> cases hp : a.padded <;>
      simp only [ha, Bool.false_eq_true, if_true, if_false, List.flatten_cons, List.flatten_nil,
        List.length_append, List.length_replicate, List.length_nil, hmbr] at hlen ⊢ <;> omega

end Pintos.Host
