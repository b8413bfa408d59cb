import Pintos.Filesys.Table

/-! The file system as a whole: owned sectors, open inodes and directory entries agree. -/

namespace Pintos.Filesys

open Pintos.Foundation Pintos.Kernel

structure Books where
  fm : Obj
  root : Obj
  files : List Obj
  fmFile : Nat
  fmInode : Nat
  fm_sector : fm.sector = freeMapSector
  root_sector : root.sector = rootDirSector
  root_length : root.length = 320

namespace Books

def objs (b : Books) : List Obj := b.fm :: b.root :: b.files

def add (b : Books) (o : Obj) : Books := { b with files := o :: b.files }

def erase (b : Books) (o : Obj) : Books := { b with files := b.files.erase o }

variable {b : Books} {o : Obj}

lemma fm_mem (b : Books) : b.fm ∈ b.objs := List.mem_cons_self

lemma root_mem (b : Books) : b.root ∈ b.objs := List.mem_cons_of_mem _ List.mem_cons_self

lemma file_mem (h : o ∈ b.files) : o ∈ b.objs := List.mem_cons_of_mem _ (List.mem_cons_of_mem _ h)

lemma mem_objs : o ∈ b.objs ↔ o = b.fm ∨ o = b.root ∨ o ∈ b.files := by
  simp [objs]

variable (hx : Exclusive Obj.sectors b.objs) (h : o ∈ b.files)

include hx h

lemma sector_ne : o.sector ≠ freeMapSector ∧ o.sector ≠ rootDirSector := by
  rw [Exclusive, objs, List.flatMap_cons, List.flatMap_cons] at hx
  obtain ⟨_, hx', hd⟩ := List.nodup_append'.mp hx
  obtain ⟨_, _, hd'⟩ := List.nodup_append'.mp hx'
  have ho : o.sector ∈ b.files.flatMap Obj.sectors := sector_mem_owned h
  constructor
  · intro he
    exact hd (a := b.fm.sector) List.mem_cons_self
      (List.mem_append_right _ (b.fm_sector ▸ he ▸ ho))
  · intro he
    exact hd' (a := b.root.sector) List.mem_cons_self (b.root_sector ▸ he ▸ ho)

lemma file_ne : o ≠ b.fm ∧ o ≠ b.root := by
  obtain ⟨h0, h1⟩ := sector_ne hx h
  refine ⟨?_, ?_⟩
  · rintro rfl
    exact h0 b.fm_sector
  · rintro rfl
    exact h1 b.root_sector

omit hx h in
lemma fm_ne_root (b : Books) : b.fm ≠ b.root := by
  intro he
  have := b.fm_sector
  rw [he, b.root_sector] at this
  cases this

omit hx h in
lemma erase_add (b : Books) (o : Obj) : (b.add o).erase o = b := by
  rw [erase, add, List.erase_cons_head]

lemma objs_erase : (b.erase o).objs = b.objs.erase o := by
  obtain ⟨hf, hr⟩ := file_ne hx h
  rw [objs, objs, List.erase_cons_tail (by simpa using Ne.symm hf),
    List.erase_cons_tail (by simpa using Ne.symm hr)]
  rfl

end Books

def rootEntries : Nat := 16

def Fs.slot (s : Fs) (d : Obj) (k : Nat) : List Byte :=
  s.disk.read (d.base + entrySize * k) entrySize

structure Names (s : Fs) (b : Books) : Prop where
  named : ∀ k < rootEntries, entryInUse (s.slot b.root k) = true →
    ∃ o ∈ b.files, o.sector = entrySector (s.slot b.root k)
  distinct : ∀ k < rootEntries, ∀ l < rootEntries, entryInUse (s.slot b.root k) = true →
    entryInUse (s.slot b.root l) = true →
    entrySector (s.slot b.root k) = entrySector (s.slot b.root l) → k = l
  gone : ∀ p i, s.inode p = some i → i.removed = true → (∃ o ∈ b.files, o.sector = i.sector) ∧
    ∀ k < rootEntries, entryInUse (s.slot b.root k) = true → entrySector (s.slot b.root k) ≠ i.sector

/-- `refs` are the references to open inodes other than the free map file's own. -/
structure Inv (s : Fs) (b : Books) (refs : List Nat) : Prop where
  bitCnt : s.freeMap.bitCnt = s.sectors
  fmLength : b.fm.length = byteCnt s.sectors
  fmOpen : s.freeMapFile = some b.fmFile
  fmHandle : ∃ x, s.file b.fmFile = some x ∧ x.inode = b.fmInode
  fmBacked : ∃ i, s.inode b.fmInode = some i ∧ i.sector = freeMapSector
  sound : Sound s b.objs
  table : Table s b.objs (b.fmInode :: refs)
  names : Names s b

lemma slot_eq (s : Fs) {d : Obj} {k : Nat} (h : entrySize * k + entrySize ≤ d.length) :
    s.slot d k = ((s.content d).drop (entrySize * k)).take entrySize := by
  rw [Fs.slot, Fs.content, Memory.drop_read, Memory.take_read, Nat.min_eq_left (by omega)]

lemma slot_congr {s t : Fs} {b : Books} (h : t.content b.root = s.content b.root) {k : Nat}
    (hk : k < rootEntries) : t.slot b.root k = s.slot b.root k := by
  have hl : entrySize * k + entrySize ≤ b.root.length := by
    rw [b.root_length, entrySize]
    rw [rootEntries] at hk
    omega
  rw [slot_eq t hl, slot_eq s hl, h]

namespace Names

variable {s t : Fs} {b : Books}

lemma congr (h : Names s b) (hr : t.content b.root = s.content b.root)
    (hg : ∀ p i, t.inode p = some i → i.removed = true →
      ∃ j, s.inode p = some j ∧ j.removed = true ∧ j.sector = i.sector) : Names t b where
  named k hk := by
    rw [slot_congr hr hk]
    exact h.named k hk
  distinct k hk l hl := by
    rw [slot_congr hr hk, slot_congr hr hl]
    exact h.distinct k hk l hl
  gone p i hi hrem := by
    obtain ⟨j, hj, hjr, hs⟩ := hg p i hi hrem
    rw [← hs]
    refine ⟨(h.gone p j hj hjr).1, fun k hk => ?_⟩
    rw [slot_congr hr hk]
    exact (h.gone p j hj hjr).2 k hk

end Names

namespace Inv

variable {s t : Fs} {b : Books} {refs refs' : List Nat}

lemma fmInode_data (h : Inv s b refs) {i : Inode} (hi : s.inode b.fmInode = some i) :
    i.data = b.fm.data ∧ i.denyWriteCnt = 0 := by
  obtain ⟨j, hj, hs⟩ := h.fmBacked
  obtain rfl : i = j := Option.some.inj (hi.symm.trans hj)
  obtain ⟨o, ho, hso, hd⟩ := h.table.backed _ _ hi
  have he : o = b.fm := eq_of_sector h.sound.exclusive ho b.fm_mem (by rw [hso, hs, b.fm_sector])
  exact ⟨he ▸ hd.symm, h.table.writable _ _ hi (.inl hs)⟩

lemma mapped (h : Inv s b refs) : Mapped s b.fm where
  bitCnt := h.bitCnt
  length := h.fmLength
  placed := h.sound.placed _ b.fm_mem
  file f hf := by
    obtain rfl : b.fmFile = f := Option.some.inj (h.fmOpen.symm.trans hf)
    obtain ⟨x, hx, hxi⟩ := h.fmHandle
    obtain ⟨i, hi, _⟩ := h.fmBacked
    exact ⟨x, i, hx, hxi ▸ hi, h.fmInode_data hi⟩

lemma file_lt_next (h : Inv s b refs) : b.fmFile < s.next := by
  obtain ⟨x, hx, _⟩ := h.fmHandle
  by_contra hn
  have := (h.table.fresh b.fmFile (by omega)).2
  simp [this] at hx

lemma perm (h : Inv s b refs) (hp : refs.Perm refs') : Inv s b refs' :=
  { h with table := h.table.perm (hp.cons _) }

end Inv

end Pintos.Filesys
