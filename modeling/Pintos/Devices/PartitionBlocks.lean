import Pintos.Devices.PartitionReports

/-! Block devices and the partitions registered on them. -/

namespace Pintos.Devices

open Pintos.Foundation Pintos.Kernel Pintos.Filesys

inductive Access
  | read (sector : Nat)
  | write (sector : Nat)
  deriving DecidableEq, Repr

structure Drive where
  disk : Memory
  accesses : List Access

inductive Block
  | disk (size : Nat)
  | partition (type : BlockType) (size start : Nat) (block : Block)

def Block.size : Block → Nat
  | .disk size => size
  | .partition _ size _ _ => size

def Block.type : Block → BlockType
  | .disk _ => .raw
  | .partition type _ _ _ => type

def checkSector (block : Block) (sector : Nat) : Except Panic Unit :=
  if block.size ≤ sector then .error .accessPastEnd else .ok ()

namespace Block

def read : Block → Nat → Drive → Except Panic (List Byte × Drive)
  | .disk size, sector, d => do
    checkSector (.disk size) sector
    return (sectorAt d.disk sector, { d with accesses := d.accesses ++ [.read sector] })
  | .partition type size start block, sector, d => do
    checkSector (.partition type size start block) sector
    block.read (wrap (start + sector)) d

def write : Block → Nat → List Byte → Drive → Except Panic Drive
  | .disk size, sector, buffer, d => do
    checkSector (.disk size) sector
    assertThat ((Block.disk size).type ≠ .foreign) .blockWriteType
    return ⟨d.disk.write (blockSectorSize * sector) buffer, d.accesses ++ [.write sector]⟩
  | .partition type size start block, sector, buffer, d => do
    checkSector (.partition type size start block) sector
    assertThat (type ≠ .foreign) .blockWriteType
    block.write (wrap (start + sector)) buffer d

end Block

def Partition.block (p : Partition) (blockSize : Nat) : Block := .partition p.type p.size p.start (.disk blockSize)

/-- The partition lies within the disk. An access to any sector panics in `check_sector` or is an access
to that sector of the partition alone, except that a partition of a foreign type is never written. -/
structure Inside (blockSize : Nat) (p : Partition) : Prop where
  fits : p.start + p.size ≤ blockSize
  readPast : ∀ sector d, p.size ≤ sector → (p.block blockSize).read sector d = .error .accessPastEnd
  writePast : ∀ sector buffer d, p.size ≤ sector → (p.block blockSize).write sector buffer d = .error .accessPastEnd
  read : ∀ sector d, sector < p.size → (p.block blockSize).read sector d =
    .ok (sectorAt d.disk (p.start + sector), { d with accesses := d.accesses ++ [.read (p.start + sector)] })
  write : ∀ sector buffer d, sector < p.size → p.type ≠ .foreign → (p.block blockSize).write sector buffer d =
    .ok ⟨d.disk.write (blockSectorSize * (p.start + sector)) buffer, d.accesses ++ [.write (p.start + sector)]⟩
  foreign : ∀ sector buffer d, sector < p.size → p.type = .foreign →
    (p.block blockSize).write sector buffer d = .error (.assertion .blockWriteType)

section Registration

variable {blockSize : Nat}

lemma checkSector_past {block : Block} {sector : Nat} (h : block.size ≤ sector) :
    checkSector block sector = .error .accessPastEnd := if_pos h

lemma checkSector_within {block : Block} {sector : Nat} (h : sector < block.size) :
    checkSector block sector = .ok () :=
  if_neg (by omega)

lemma inside_of_fits (hN : blockSize < 4294967296) {p : Partition} (h : p.start + p.size ≤ blockSize) :
    Inside blockSize p := by
  have hwrap : ∀ sector, sector < p.size → wrap (p.start + sector) = p.start + sector :=
    fun sector hs => wrap_of_lt (by omega)
  refine ⟨h, fun sector d hs => ?_, fun sector buffer d hs => ?_, fun sector d hs => ?_,
    fun sector buffer d hs ht => ?_, fun sector buffer d hs ht => ?_⟩
  · rw [Partition.block, Block.read, checkSector_past hs, bind_error]
  · rw [Partition.block, Block.write, checkSector_past hs, bind_error]
  · have hin : p.start + sector < (Block.disk blockSize).size := show p.start + sector < blockSize by omega
    rw [Partition.block, Block.read, checkSector_within hs, bind_ok, hwrap sector hs, Block.read,
      checkSector_within hin, bind_ok, pure_eq_ok]
  · have hin : p.start + sector < (Block.disk blockSize).size := show p.start + sector < blockSize by omega
    rw [Partition.block, Block.write, checkSector_within hs, bind_ok, assertThat_pos ht, bind_ok, hwrap sector hs,
      Block.write, checkSector_within hin, bind_ok, assertThat_pos nofun, bind_ok, pure_eq_ok]
  · rw [Partition.block, Block.write, checkSector_within hs, bind_ok, assertThat_neg (not_not.mpr ht), bind_error]

lemma foundPartition_cases (hN : blockSize < 4294967296) {partType start size : Nat} {s t : Scan}
    (hsize : size < 4294967296) (h : foundPartition blockSize partType start size s = .ok t) :
    t.found = s.found ∨ ∃ p : Partition, t.found = s.found ++ [p] ∧ p.start + p.size ≤ blockSize := by
  rw [foundPartition] at h
  split at h
  · cases h
    exact .inl rfl
  next hstart =>
  split at h
  · cases h
    exact .inl rfl
  next hend =>
  have hfits : start + size ≤ blockSize := by
    simp only [wrap] at hend
    omega
  rcases hm : malloc s.mallocs with ⟨_ | _, mallocs⟩
  · simp only [hm, Bool.false_eq_true, if_false] at h
    cases h
  rcases hm' : malloc mallocs with ⟨_ | _, mallocs'⟩
  · simp only [hm, hm', if_true, Bool.false_eq_true, if_false] at h
    cases h
  · simp only [hm, hm', if_true, Except.ok.injEq] at h
    exact .inr ⟨⟨s.partNr, partitionType partType, start, size⟩, by rw [← h], hfits⟩

end Registration

lemma scan_inside {blockSize : Nat} (hN : blockSize < 4294967296) {disk : Memory} {fuel : Nat}
    {mallocs : List Bool} {s : Scan}
    (h : partitionScan disk blockSize fuel mallocs = .ok s) : ∀ p ∈ s.found, p.start + p.size ≤ blockSize := by
  rw [partitionScan, readPartitionTable_eq_walkTable] at h
  refine walkTable_invariant (I := fun s => ∀ p ∈ s.found, p.start + p.size ≤ blockSize) (fun s t hs ht => ?_)
    (fun sector e s t hs ht => ?_) (by simp) h
  · simp only [scanClient] at ht
    split at ht
    · cases ht
      exact hs
    · cases ht
  · intro p hp
    rcases foundPartition_cases hN (wordOf_lt _) ht with hsame | ⟨q, hnew, hfits⟩
    · exact hs p (hsame ▸ hp)
    · rw [hnew, List.mem_append, List.mem_singleton] at hp
      rcases hp with hp | rfl
      · exact hs p hp
      · exact hfits

theorem registered_partition_inside {blockSize : Nat} (hN : blockSize < 4294967296) :
    (∀ partType start size s t, size < 4294967296 → foundPartition blockSize partType start size s = .ok t →
      t.found = s.found ∨ ∃ p, t.found = s.found ++ [p] ∧ Inside blockSize p) ∧
    ∀ disk fuel mallocs s, partitionScan disk blockSize fuel mallocs = .ok s → ∀ p ∈ s.found, Inside blockSize p := by
  constructor
  · intro partType start size s t hsize h
    rcases foundPartition_cases hN hsize h with hsame | ⟨p, hnew, hfits⟩
    · exact .inl hsame
    · exact .inr ⟨p, hnew, inside_of_fits hN hfits⟩
  · intro disk fuel mallocs s h p hp
    exact inside_of_fits hN (scan_inside hN h p hp)

theorem registered_partition_inside_plain :
    ∃ s, partitionScan plainDisk 4 1 [] = .ok s ∧ s.found = [⟨1, .filesys, 1, 2⟩, ⟨2, .scratch, 3, 1⟩] ∧
      ∀ p ∈ s.found, Inside 4 p := by
  have hrun : (partitionScan plainDisk 4 1 []).map Scan.found =
      .ok [⟨1, .filesys, 1, 2⟩, ⟨2, .scratch, 3, 1⟩] := by decide +kernel
  cases hs : partitionScan plainDisk 4 1 [] with
  | error e =>
    rw [hs] at hrun
    cases hrun
  | ok s =>
    rw [hs] at hrun
    exact ⟨s, rfl, Except.ok.inj hrun, (registered_partition_inside (by decide)).2 _ _ _ s hs⟩

theorem foreign_partition_write_asserts :
    ∃ t p, foundPartition 4 0x83 1 2 ⟨[], 1, []⟩ = .ok t ∧ t.found = [p] ∧ 0 < p.size ∧
      (p.block 4).write 0 (List.replicate 512 0) ⟨fun _ => 0, []⟩ = .error (.assertion .blockWriteType) :=
  ⟨_, _, rfl, rfl, by decide, rfl⟩

end Pintos.Devices
