import Pintos.Filesys.Runs

/-! Exactly which bytes `inode_read_at` and `inode_write_at` transfer when memory does not run out. -/

namespace Pintos.Filesys

open Pintos.Foundation Pintos.Kernel

def transferred (size length offset : Int) : Int := max 0 (min size (length - offset))

def ReadsBack (s t : Fs) (p : Nat) (buffer : List Byte) (n offset : Nat) : Prop :=
  ∀ (size : Off) (ofs : Nat), ∃ old new, inodeReadAt s p size ofs = .ok (old, s) ∧
    inodeReadAt t p size ofs = .ok (new, t) ∧ new.length = old.length ∧
    ∀ j < new.length, new[j]? = if offset ≤ ofs + j ∧ ofs + j < offset + n then buffer[ofs + j - offset]?
      else old[j]?

def WritesWithin (s t : Fs) (start n offset : Nat) : Prop :=
  ∀ sector, (∀ a, offset ≤ a → a < offset + n → sector ≠ start + a / blockSectorSize) →
    t.disk.read (blockSectorSize * sector) blockSectorSize = s.disk.read (blockSectorSize * sector) blockSectorSize

section Quiet

variable {s : Fs} {o : Obj} {p : Nat} {i : Inode} (hp : o.start + o.cnt ≤ s.sectors)
  (hi : s.inode p = some i) (hd : i.data = o.data) (hq : s.mallocs = [])

include hp hi hd hq

lemma inodeReadAt_quiet (size : Int) (offset : Nat) : inodeReadAt s p size offset =
    .ok (s.disk.read (o.base + offset) (min size.toNat (o.length - offset)), s) := by
  obtain ⟨n, ms, hrun, ht⟩ := inodeReadAt_eq hp hi hd size offset
  obtain ⟨rfl, hms⟩ := ht.quiet hq
  rw [hrun, hms, ← hq]

lemma inodeWriteAt_quiet (hw : i.denyWriteCnt = 0) {buffer : List Byte} {size : Int} (offset : Nat)
    (hb : size ≤ buffer.length) : inodeWriteAt s p buffer size offset =
    .ok (min size.toNat (o.length - offset), { s with
      disk := s.disk.write (o.base + offset) (buffer.take (min size.toNat (o.length - offset))) }) := by
  obtain ⟨n, ms, hrun, ht⟩ := inodeWriteAt_eq hp hi hd hw buffer size offset
  rw [Nat.min_eq_left (show size.toNat ≤ buffer.length by omega)] at ht
  obtain ⟨rfl, hms⟩ := ht.quiet hq
  rw [hrun, hms, ← hq]

end Quiet

lemma transferred_eq (size : Int) (length offset : Nat) :
    transferred size length offset = (min size.toNat (length - offset) : Nat) := by
  rw [transferred]
  omega

section Written

variable {s : Fs} {o : Obj} {p : Nat} {i : Inode} {offset : Nat} {bs : List Byte}

lemma readsBack_of_write (hp : o.start + o.cnt ≤ s.sectors) (hi : s.inode p = some i)
    (hd : i.data = o.data) (hq : s.mallocs = []) {buffer : List Byte} {n : Nat}
    (hbs : bs = buffer.take n) (hn : n ≤ buffer.length) :
    ReadsBack s { s with disk := s.disk.write (o.base + offset) bs } p buffer n offset := by
  intro size ofs
  have hlen : bs.length = n := by rw [hbs, List.length_take, Nat.min_eq_left hn]
  refine ⟨_, _, inodeReadAt_quiet hp hi hd hq size ofs,
    inodeReadAt_quiet (s := { s with disk := s.disk.write (o.base + offset) bs }) hp hi hd hq size ofs, ?_, ?_⟩
  · rw [Memory.length_read, Memory.length_read]
  · intro j hj
    rw [Memory.length_read] at hj
    rw [Memory.getElem?_read_write _ _ _ hj, hlen]
    by_cases hin : offset ≤ ofs + j ∧ ofs + j < offset + n
    · rw [if_pos hin, if_pos (by omega), hbs, List.getElem?_take, if_pos (by omega)]
      congr 1
      omega
    · rw [if_neg hin, if_neg (by omega)]

lemma writesWithin_of_write {n : Nat} (hn : bs.length ≤ n) :
    WritesWithin s { s with disk := s.disk.write (o.base + offset) bs } o.start n offset := by
  intro sector hs
  apply Memory.read_congr
  intro x hx hx'
  apply Memory.write_of_notMem
  by_contra hin
  rw [Obj.base, blockSectorSize] at hin
  rw [blockSectorSize] at hx hx'
  refine hs (x - 512 * o.start) (by omega) (by omega) ?_
  rw [blockSectorSize]
  omega

end Written

theorem inode_transfers_exact {m : Machine} (h : system.Reachable m) {p : Nat} {i : Inode}
    (hi : m.fs.inode p = some i) :
    (∀ (size : Off) (offset : Nat), ∃ bytes,
      inodeReadAt { m.fs with mallocs := [] } p size offset = .ok (bytes, { m.fs with mallocs := [] }) ∧
      (bytes.length : Int) = transferred size i.data.length offset) ∧
    (i.denyWriteCnt = 0 → ∀ (buffer : List Byte) (size : Off) (offset : Nat), size.val ≤ buffer.length →
      ∃ n disk, inodeWriteAt { m.fs with mallocs := [] } p buffer size offset =
          .ok (n, { m.fs with disk, mallocs := [] }) ∧
        (n : Int) = transferred size i.data.length offset ∧
        ReadsBack { m.fs with mallocs := [] } { m.fs with disk, mallocs := [] } p buffer n offset ∧
        WritesWithin m.fs { m.fs with disk } i.data.start n offset) := by
  obtain ⟨b, held, hlive, _⟩ := reachable_good h
  obtain ⟨o, ho, _, hd⟩ := hlive.inv.table.backed p i hi
  have hp := hlive.inv.sound.placed o ho
  have hlen : i.data.length = (o.length : Int) := by rw [← hd, Obj.data]
  constructor
  · intro size offset
    refine ⟨_, inodeReadAt_quiet (s := { m.fs with mallocs := [] }) hp hi hd.symm rfl size offset, ?_⟩
    rw [Memory.length_read, hlen, transferred_eq]
  · intro hw buffer size offset hb
    refine ⟨_, _, inodeWriteAt_quiet (s := { m.fs with mallocs := [] }) hp hi hd.symm rfl hw offset hb, ?_,
      readsBack_of_write (s := { m.fs with mallocs := [] }) hp hi hd.symm rfl rfl (by omega), ?_⟩
    · rw [hlen, transferred_eq]
    · have hstart : i.data.start = o.start := by rw [← hd, Obj.data]
      rw [hstart]
      exact writesWithin_of_write (by rw [List.length_take]; omega)

theorem inode_transfers_across_sectors :
    ∃ m p i, system.Reachable m ∧ m.fs.inode p = some i ∧ i.denyWriteCnt = 0 ∧ i.data.length = 600 ∧
      ∃ disk, inodeWriteAt { m.fs with mallocs := [] } p [1, 2, 3] 3 511 =
        .ok (3, { m.fs with disk, mallocs := [] }) ∧
      ReadsBack { m.fs with mallocs := [] } { m.fs with disk, mallocs := [] } p [1, 2, 3] 3 511 := by
  have hrun : ((smallRun [.create nameA ⟨600, by decide⟩, .openNamed nameA]).map fun m =>
      ((m.held.head?.bind m.fs.file).map File.inode).map fun p =>
        (m.fs.inode p).map fun i => (i.denyWriteCnt, i.data.length)) = some (some (some (0, 600))) := by
    decide +kernel
  obtain ⟨m, hm, he⟩ := Option.map_eq_some_iff.mp hrun
  obtain ⟨p, _, he⟩ := Option.map_eq_some_iff.mp he
  obtain ⟨i, hi, he⟩ := Option.map_eq_some_iff.mp he
  obtain ⟨hw, hlen⟩ := Prod.mk.inj he
  have hr := (smallRun_reachable hm).reachable
  obtain ⟨n, disk, hrun', hn, hback, _⟩ :=
    (inode_transfers_exact hr hi).2 hw [1, 2, 3] ⟨3, by decide⟩ 511 (by decide)
  obtain rfl : n = 3 := by
    rw [hlen] at hn
    have h3 : transferred 3 600 511 = 3 := by decide
    exact_mod_cast hn.trans h3
  exact ⟨m, p, i, hr, hi, hw, hlen, disk, hrun', hback⟩

end Pintos.Filesys
