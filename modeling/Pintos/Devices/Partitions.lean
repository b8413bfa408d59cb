import Pintos.Filesys.Inodes
import Pintos.Host.DiskImages

/-! The kernel's scan for partitions, and the two readers of the partition table. -/

namespace Pintos.Devices

open Pintos.Foundation Pintos.Kernel Pintos.Filesys Pintos.Host

inductive BlockType
  | kernel
  | filesys
  | scratch
  | swap
  | raw
  | foreign
  deriving DecidableEq, Repr

structure Partition where
  partNr : Nat
  type : BlockType
  start : Nat
  size : Nat
  deriving DecidableEq, Repr

structure Scan where
  mallocs : List Bool
  partNr : Nat
  found : List Partition
  deriving DecidableEq, Repr

def partitionType (partType : Nat) : BlockType :=
  if partType = 0x20 then .kernel
  else if partType = 0x21 then .filesys
  else if partType = 0x22 then .scratch
  else if partType = 0x23 then .swap
  else .foreign

def foundPartition (blockSize partType start size : Nat) (s : Scan) : Except (Option Panic) Scan :=
  if blockSize ≤ start then .ok s
  else if wrap (start + size) < start ∨ blockSize < wrap (start + size) then .ok s
  else
    let (ok, mallocs) := malloc s.mallocs
    if ok then
      let (ok, mallocs) := malloc mallocs
      if ok then
        .ok { s with mallocs, found := s.found ++ [⟨s.partNr, partitionType partType, start, size⟩] }
      else .error (some .noMemoryForBlock)
    else .error (some .noMemoryForPartition)

def scanEntry (blockSize sector primaryExtendedSector : Nat)
    (readTable : Nat → Nat → Scan → Except (Option Panic) Scan) (s : Scan) (e : List Byte) :
    Except (Option Panic) Scan :=
  let type := (e.getD 4 0).toNat
  let offset := wordOf (e.drop 8)
  let size := wordOf (e.drop 12)
  if size = 0 ∨ type = 0 then return s
  else if type = 0x05 ∨ type = 0x0f ∨ type = 0x85 ∨ type = 0xc5 then
    if sector = 0 then readTable offset offset s
    else readTable (wrap (offset + primaryExtendedSector)) primaryExtendedSector s
  else foundPartition blockSize type (wrap (offset + sector)) size { s with partNr := s.partNr + 1 }

/-- The table of every extended partition is read from sector 0 again; `none` says that the fuel for
such nesting is used up. -/
def readPartitionTable (disk : Memory) (blockSize : Nat) :
    Nat → Nat → Nat → Scan → Except (Option Panic) Scan
  | 0, _, _, _ => .error none
  | fuel + 1, sector, primaryExtendedSector, s =>
    if blockSize ≤ sector then .ok s
    else
      let (ok, mallocs) := malloc s.mallocs
      if ok then do
        let pt ← (blockRead disk blockSize 0).mapError some
        if field pt 510 2 ≠ [0x55, 0xaa] then return { s with mallocs }
        else
          ([0, 1, 2, 3].map fun i => field pt (446 + 16 * i) 16).foldlM
            (scanEntry blockSize sector primaryExtendedSector (readPartitionTable disk blockSize fuel))
            { s with mallocs }
      else .error (some .noMemoryForPartitionTable)

def partitionScan (disk : Memory) (blockSize fuel : Nat) (mallocs : List Bool) :
    Except (Option Panic) Scan :=
  readPartitionTable disk blockSize fuel 0 0 ⟨mallocs, 0, []⟩

def blockTypeOf : Role → BlockType
  | .kernel => .kernel
  | .filesys => .filesys
  | .scratch => .scratch
  | .swap => .swap

lemma malloc_succeeds {mallocs : List Bool} (h : false ∉ mallocs) :
    ∃ rest, malloc mallocs = (true, rest) ∧ false ∉ rest := by
  cases mallocs with
  | nil => exact ⟨[], rfl, h⟩
  | cons ok rest =>
    obtain ⟨hok, hrest⟩ := List.ne_and_not_mem_of_not_mem_cons h
    refine ⟨rest, ?_, hrest⟩
    cases ok with
    | false => exact (hok rfl).elim
    | true => rfl

structure Agrees (s : Scan) (parts : List Part) : Prop where
  memory : false ∉ s.mallocs
  found : s.found.map (fun f => (f.type, f.start, f.size)) =
    parts.map fun p => (blockTypeOf p.role, p.start, p.sectors)

section Scanning

variable {blockSize : Nat} (readTable : Nat → Nat → Scan → Except (Option Panic) Scan) {s : Scan} {parts : List Part}

lemma foundPartition_agrees {p : Part} (hs : Agrees s parts)
    (hpos : 0 < p.sectors) (hend : p.start + p.sectors ≤ blockSize) (hsize : blockSize < 4294967296) :
    ∃ t, foundPartition blockSize (role2type p.role) p.start p.sectors s = .ok t ∧
      Agrees t (parts ++ [p]) := by
  obtain ⟨rest, hm, hrest⟩ := malloc_succeeds hs.memory
  obtain ⟨rest', hm', hrest'⟩ := malloc_succeeds hrest
  have hwrap : wrap (p.start + p.sectors) = p.start + p.sectors := wrap_of_lt (by omega)
  have htype : partitionType (role2type p.role) = blockTypeOf p.role := by
    cases p.role <;> rfl
  rw [foundPartition, if_neg (by omega), hwrap, if_neg (by omega)]
  simp only [hm, hm', if_true, htype]
  refine ⟨_, rfl, hrest', ?_⟩
  simp [hs.found]

lemma scanEntry_agrees (g : Geometry) {p : Part} (hs : Agrees s parts)
    (hpos : 0 < p.sectors) (hend : p.start + p.sectors ≤ blockSize) (hsize : blockSize < 4294967296) :
    ∃ t, scanEntry blockSize 0 0 readTable s (tableEntry g p) = .ok t ∧ Agrees t (parts ++ [p]) := by
  have hplain : role2type p.role ≠ 0 ∧ ¬ (role2type p.role = 0x05 ∨ role2type p.role = 0x0f ∨
      role2type p.role = 0x85 ∨ role2type p.role = 0xc5) := by
    cases p.role <;> decide
  rw [scanEntry]
  simp only [tableEntry_type, tableEntry_start (show p.start < 4294967296 by omega),
    tableEntry_sectors (show p.sectors < 4294967296 by omega), Nat.add_zero]
  rw [if_neg (by omega), if_neg hplain.2, wrap_of_lt (by omega)]
  exact foundPartition_agrees ⟨hs.memory, hs.found⟩ hpos hend hsize

lemma foldlM_scanEntry (g : Geometry) {done : List Part} (hs : Agrees s done)
    (hpos : ∀ p ∈ parts, 0 < p.sectors) (hend : ∀ p ∈ parts, p.start + p.sectors ≤ blockSize)
    (hsize : blockSize < 4294967296) :
    ∃ t, (parts.map (tableEntry g)).foldlM (scanEntry blockSize 0 0 readTable) s = .ok t ∧
      Agrees t (done ++ parts) := by
  induction parts generalizing s done with
  | nil => exact ⟨s, rfl, by simpa using hs⟩
  | cons p parts ih =>
    obtain ⟨u, hu, hagree⟩ := scanEntry_agrees readTable g hs
      (hpos p List.mem_cons_self) (hend p List.mem_cons_self) hsize
    obtain ⟨t, ht, hagree'⟩ := ih hagree (fun q hq => hpos q (List.mem_cons_of_mem _ hq))
      fun q hq => hend q (List.mem_cons_of_mem _ hq)
    refine ⟨t, ?_, by simpa using hagree'⟩
    rw [List.map_cons, List.foldlM_cons, hu, bind_ok, ht]

lemma foldlM_scanEntry_zeros (n : Nat) :
    (List.replicate n (List.replicate 16 0)).foldlM (scanEntry blockSize 0 0 readTable) s = .ok s := by
  induction n with
  | zero => rfl
  | succ n ih =>
    have hskip : scanEntry blockSize 0 0 readTable s (List.replicate 16 0) = .ok s := by
      rw [scanEntry]
      exact if_pos (by decide)
    rw [List.replicate_succ, List.foldlM_cons, hskip, bind_ok, ih]

lemma partitionScan_agrees {a : DiskArgs} {mbr : List Byte} {disk : Memory}
    {mallocs : List Bool} {fuel : Nat} (hmbr : makeMbr a parts = some mbr) (hparts : parts.length ≤ 4)
    (hdisk : disk.read 0 512 = mbr) (hmalloc : false ∉ mallocs) (hfuel : 0 < fuel)
    (hpos : ∀ p ∈ parts, 0 < p.sectors) (hend : ∀ p ∈ parts, p.start + p.sectors ≤ blockSize)
    (hsome : 0 < blockSize) (hsize : blockSize < 4294967296) :
    ∃ t, partitionScan disk blockSize fuel mallocs = .ok t ∧ Agrees t parts := by
  obtain ⟨fuel, rfl⟩ := Nat.exists_eq_add_of_lt hfuel
  obtain ⟨rest, hm, hrest⟩ := malloc_succeeds hmalloc
  obtain ⟨hentries, hsig⟩ := tableEntries_makeMbr hmbr hparts
  have hstart : Agrees ⟨rest, 0, []⟩ [] := ⟨hrest, rfl⟩
  obtain ⟨t, ht, hagree⟩ := foldlM_scanEntry (readPartitionTable disk blockSize (0 + fuel)) a.geometry
    hstart hpos hend hsize
  have hread : blockRead disk blockSize 0 = .ok mbr := by
    rw [blockRead, if_pos hsome, ← hdisk]
    rfl
  refine ⟨t, ?_, hagree⟩
  rw [partitionScan, readPartitionTable, if_neg (by omega)]
  simp only [hm, if_true, hread, Except.mapError, bind_ok, hsig, ne_eq, not_true_eq_false, if_false]
  rw [show ([0, 1, 2, 3].map fun i => field mbr (446 + 16 * i) 16) = tableEntries mbr from rfl, hentries,
    entriesOf, List.foldlM_append, ht, bind_ok, foldlM_scanEntry_zeros]

end Scanning

/-- Both readers recover what `assemble_disk` recorded, and the partitions share no sector. -/
theorem partitions_recovered {a : DiskArgs} (hformat : a.format = .partitioned)
    (hgeometry : a.geometry = defaultGeometry)
    (hpos : ∀ role bytes, a.sources role = some bytes → bytes ≠ []) (htotal : a.layout.2 < 4294967296)
    {parts : List Part} {image : List Byte} (h : assembleDisk a = some (parts, image)) :
    parts.map Part.role = roleOrder.filter (fun role => (a.sources role).isSome) ∧
    Host.readPartitionTable image = some parts ∧
    (∀ disk : Memory, disk.read 0 image.length = image → ∀ mallocs fuel blockSize, false ∉ mallocs →
      0 < fuel → a.layout.2 ≤ blockSize → blockSize < 4294967296 →
      ∃ s, partitionScan disk blockSize fuel mallocs = .ok s ∧
        s.found.map (fun f => (f.type, f.start, f.size)) =
          parts.map fun p => (blockTypeOf p.role, p.start, p.sectors)) ∧
    (parts.Pairwise fun p q => p.start + p.sectors ≤ q.start) ∧
    (∀ p ∈ parts, 0 < p.start ∧ 0 < p.sectors ∧ 512 * (p.start + p.sectors) ≤ image.length) ∧
    image.length = 512 * a.diskSectors ∧ a.layout.2 ≤ a.diskSectors := by
  obtain ⟨mbr, rfl, hmbr, rfl⟩ := assembleDisk_partitioned hformat h
  have hs : 0 < a.geometry.sectors := hgeometry ▸ (by decide : 0 < defaultGeometry.sectors)
  have h63 : a.geometry.sectors ≤ 63 := hgeometry ▸ (by decide : defaultGeometry.sectors ≤ 63)
  have hcyl : 0 < cylSectors a.geometry := hgeometry ▸ (by decide : 0 < cylSectors defaultGeometry)
  have htiles : Tiles a.sources a.firstSector a.layout.2 a.layout.1 := place_tiles hcyl _ _
  have hroles : a.layout.1.map Part.role = roleOrder.filter fun role => (a.sources role).isSome :=
    place_roles _ _
  have hfirst : 0 < a.firstSector := by
    simp only [DiskArgs.firstSector, hformat]
    split
    · exact hs
    · exact Nat.one_pos
  have hnodup : (a.layout.1.map Part.role).Nodup := hroles ▸ (by decide : roleOrder.Nodup).filter _
  have hfour : a.layout.1.length ≤ 4 := by
    have hlen := congrArg List.length hroles
    rw [List.length_map] at hlen
    rw [hlen]
    exact List.length_filter_le _ _
  obtain ⟨htake, hlength⟩ :=
    diskBytes_partitioned hformat (length_makeMbr hmbr) hs hcyl htiles
  have hround : a.layout.2 ≤ a.diskSectors := by
    rw [DiskArgs.diskSectors]
    split
    · exact le_roundUp hcyl
    · exact le_rfl
  have hle := htiles.le
  have hsectors : ∀ p ∈ a.layout.1, 0 < p.sectors := by
    intro p hp
    obtain ⟨bytes, hbytes, hroom⟩ := htiles.contents p hp
    have hlen := List.length_pos_iff.mpr (hpos _ _ hbytes)
    omega
  have hbounds := htiles.bounds
  refine ⟨hroles, ?_, ?_, htiles.ordered, ?_, hlength, hround⟩
  · have hread : readMbr (diskBytes a mbr a.layout.1 a.layout.2) = some mbr := by
      have hfield : field (diskBytes a mbr a.layout.1 a.layout.2) 510 2 = [0x55, 0xaa] := by
        have hsame := field_take (diskBytes a mbr a.layout.1 a.layout.2) (show 510 + 2 ≤ 512 by decide)
        rw [htake] at hsame
        rw [← hsame, (tableEntries_makeMbr hmbr hfour).2]
      rw [readMbr, if_pos ⟨by omega, hfield⟩, htake]
    rw [Host.readPartitionTable, hread, Option.map_some, interpretPartitionTable_makeMbr hmbr hfour hs h63
      (fun p hp => ?_) hnodup]
    obtain ⟨hlow, hhigh⟩ := hbounds p hp
    exact ⟨by omega, by omega⟩
  · intro disk hdisk mallocs fuel blockSize hmalloc hfuel hblock hlt
    have hsector : disk.read 0 512 = mbr := by
      rw [← htake, ← hdisk, Memory.take_read, Nat.min_eq_left (by omega)]
    obtain ⟨s, hscan, hagree⟩ := partitionScan_agrees hmbr hfour hsector hmalloc hfuel hsectors
      (fun p hp => (hbounds p hp).2.trans hblock) (by omega) hlt
    exact ⟨s, hscan, hagree.found⟩
  · intro p hp
    obtain ⟨hlow, hhigh⟩ := hbounds p hp
    exact ⟨by omega, hsectors p hp, by omega⟩

def smallDisk : DiskArgs where
  align := .bochs
  format := .partitioned
  geometry := defaultGeometry
  loader := none
  args := [[0x2d, 0x71]]
  sources := fun
    | .kernel => some [1, 2, 3]
    | .filesys => some (List.replicate 600 7)
    | .scratch | .swap => none

theorem partitions_recovered_small :
    ∃ image, assembleDisk smallDisk = some ([⟨.kernel, 1, 1⟩, ⟨.filesys, 2, 2⟩], image) ∧
      Host.readPartitionTable image = some [⟨.kernel, 1, 1⟩, ⟨.filesys, 2, 2⟩] ∧
      image.length = 512 * 1008 := by
  have hmbr : ∃ mbr, makeMbr smallDisk [⟨.kernel, 1, 1⟩, ⟨.filesys, 2, 2⟩] = some mbr := ⟨_, rfl⟩
  obtain ⟨mbr, hmbr⟩ := hmbr
  have hdisk : assembleDisk smallDisk = some ([⟨.kernel, 1, 1⟩, ⟨.filesys, 2, 2⟩],
      diskBytes smallDisk mbr [⟨.kernel, 1, 1⟩, ⟨.filesys, 2, 2⟩] 4) := by
    have hlayout : smallDisk.layout = ([⟨.kernel, 1, 1⟩, ⟨.filesys, 2, 2⟩], 4) := by decide +kernel
    have hformat : smallDisk.format = .partitioned := rfl
    simp only [assembleDisk, hlayout, hformat, reduceCtorEq, false_and, if_false, hmbr]
    rfl
  have hpos : ∀ role bytes, smallDisk.sources role = some bytes → bytes ≠ [] := by
    intro role bytes hbytes
    cases role <;> cases hbytes <;> decide
  obtain ⟨-, hread, -, -, -, hlength, -⟩ :=
    partitions_recovered rfl rfl hpos (by decide +kernel) hdisk
  have hsectors : smallDisk.diskSectors = 1008 := by decide +kernel
  exact ⟨_, hdisk, hread, hlength.trans (by rw [hsectors])⟩

end Pintos.Devices
