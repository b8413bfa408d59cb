import Pintos.Userprog.Space

/-! Program headers and the pages into which `load_segment` divides a segment. -/

namespace Pintos.Userprog

open Pintos.Foundation Pintos.Kernel

structure Phdr where
  type : Nat
  offset : Nat
  vaddr : Nat
  filesz : Nat
  memsz : Nat
  flags : Nat
  offset_lt : offset < 4294967296
  vaddr_lt : vaddr < 4294967296
  memsz_lt : memsz < 4294967296
  deriving DecidableEq

def Phdr.ofBytes (bs : List Byte) : Phdr where
  type := wordOf bs
  offset := wordOf (bs.drop 4)
  vaddr := wordOf (bs.drop 8)
  filesz := wordOf (bs.drop 16)
  memsz := wordOf (bs.drop 20)
  flags := wordOf (bs.drop 24)
  offset_lt := wordOf_lt _
  vaddr_lt := wordOf_lt _
  memsz_lt := wordOf_lt _

def validateSegment (phdr : Phdr) (fileLength : Int) : Bool :=
  decide (pgOfs phdr.offset = pgOfs phdr.vaddr) &&
  decide (phdr.offset ≤ ofInt32 fileLength) &&
  decide (phdr.filesz ≤ phdr.memsz) &&
  decide (phdr.memsz ≠ 0) &&
  isUserVaddr phdr.vaddr &&
  isUserVaddr (wrap (phdr.vaddr + phdr.memsz)) &&
  decide (phdr.vaddr ≤ wrap (phdr.vaddr + phdr.memsz)) &&
  decide (pgSize ≤ phdr.vaddr)

namespace Phdr

def writable (phdr : Phdr) : Bool := decide (phdr.flags / 2 % 2 ≠ 0)

def filePage (phdr : Phdr) : Nat := pgRoundDown phdr.offset

def memPage (phdr : Phdr) : Nat := pgRoundDown phdr.vaddr

def pageOffset (phdr : Phdr) : Nat := pgOfs phdr.vaddr

def readBytes (phdr : Phdr) : Nat :=
  if 0 < phdr.filesz then wrap (phdr.pageOffset + phdr.filesz) else 0

def zeroBytes (phdr : Phdr) : Nat :=
  if 0 < phdr.filesz then
    wrap (roundUp (wrap (phdr.pageOffset + phdr.memsz)) pgSize + 4294967296 - phdr.readBytes)
  else roundUp (wrap (phdr.pageOffset + phdr.memsz)) pgSize

end Phdr

structure PageLoad where
  upage : Nat
  readBytes : Nat
  zeroBytes : Nat
  deriving DecidableEq, Repr

namespace PageLoad

def pageReadBytes (p : PageLoad) : Nat := if p.readBytes < pgSize then p.readBytes else pgSize

def pageZeroBytes (p : PageLoad) : Nat := pgSize - p.pageReadBytes

def finished (p : PageLoad) : Prop := ¬ (0 < p.readBytes ∨ 0 < p.zeroBytes)

instance (p : PageLoad) : Decidable p.finished := inferInstanceAs (Decidable (¬ _))

def advance (p : PageLoad) : PageLoad where
  upage := wrap (p.upage + pgSize)
  readBytes := p.readBytes - p.pageReadBytes
  zeroBytes := wrap (p.zeroBytes + 4294967296 - p.pageZeroBytes)

end PageLoad

lemma PageLoad.pageReadBytes_eq (p : PageLoad) : p.pageReadBytes = min p.readBytes pgSize := by
  rw [PageLoad.pageReadBytes]
  split <;> omega

/-- The iterations of the loop, if it ends before `fuel` is used up. -/
def segmentPages : Nat → PageLoad → Option (List PageLoad)
  | 0, _ => none
  | fuel + 1, p => if p.finished then some [] else (segmentPages fuel p.advance).map (p :: ·)

def Phdr.firstPage (phdr : Phdr) : PageLoad := ⟨phdr.memPage, phdr.readBytes, phdr.zeroBytes⟩

def Phdr.pageCnt (phdr : Phdr) : Nat := (phdr.readBytes + phdr.zeroBytes) / pgSize

structure PageLoad.Whole (p : PageLoad) (n : Nat) : Prop where
  bytes : p.readBytes + p.zeroBytes = pgSize * n
  start : pgOfs p.upage = 0
  low : pgSize ≤ p.upage
  top : p.upage + pgSize * n ≤ physBase

namespace PageLoad.Whole

variable {p : PageLoad} {n : Nat}

lemma finished_iff (h : p.Whole n) : p.finished ↔ n = 0 := by
  have hbytes := h.bytes
  rw [PageLoad.finished]
  simp only [pgSize] at hbytes
  omega

lemma pageZeroBytes_le (h : p.Whole (n + 1)) : p.pageZeroBytes ≤ p.zeroBytes := by
  have hbytes := h.bytes
  rw [PageLoad.pageZeroBytes, p.pageReadBytes_eq]
  simp only [pgSize] at *
  omega

lemma advance_eq (h : p.Whole (n + 1)) :
    p.advance = ⟨p.upage + pgSize, p.readBytes - p.pageReadBytes, p.zeroBytes - p.pageZeroBytes⟩ := by
  have hzero := h.pageZeroBytes_le
  have hbytes := h.bytes
  have htop := h.top
  simp only [pgSize, physBase] at hbytes htop
  have hup : wrap (p.upage + pgSize) = p.upage + pgSize := by
    apply wrap_of_lt
    simp only [pgSize]
    omega
  have hleft : wrap (p.zeroBytes + 4294967296 - p.pageZeroBytes) = p.zeroBytes - p.pageZeroBytes := by
    rw [wrap]
    omega
  rw [PageLoad.advance, hup, hleft]

lemma advance (h : p.Whole (n + 1)) : p.advance.Whole n := by
  have hzero := h.pageZeroBytes_le
  obtain ⟨hbytes, hstart, hlow, htop⟩ := h
  rw [Whole.advance_eq ⟨hbytes, hstart, hlow, htop⟩]
  have hread := p.pageReadBytes_eq
  have hpage : p.pageZeroBytes = pgSize - p.pageReadBytes := rfl
  rw [Nat.mul_succ] at hbytes htop
  refine ⟨?_, ?_, ?_, ?_⟩
  · change p.readBytes - p.pageReadBytes + (p.zeroBytes - p.pageZeroBytes) = pgSize * n
    omega
  · exact (Nat.add_mod_right _ _).trans hstart
  · exact Nat.le_trans hlow (Nat.le_add_right _ _)
  · change p.upage + pgSize + pgSize * n ≤ physBase
    omega

end PageLoad.Whole

def pagesFrom : Nat → PageLoad → List PageLoad
  | 0, _ => []
  | n + 1, p => p :: pagesFrom n p.advance

@[simp] lemma length_pagesFrom (n : Nat) (p : PageLoad) : (pagesFrom n p).length = n := by
  induction n generalizing p with
  | zero => rfl
  | succ n ih => rw [pagesFrom, List.length_cons, ih]

lemma segmentPages_eq {p : PageLoad} {n fuel : Nat} (h : p.Whole n) (hfuel : n < fuel) :
    segmentPages fuel p = some (pagesFrom n p) := by
  induction n generalizing p fuel with
  | zero =>
    obtain ⟨fuel, rfl⟩ := Nat.exists_eq_add_of_lt hfuel
    rw [Nat.zero_add, segmentPages, if_pos (h.finished_iff.mpr rfl)]
    rfl
  | succ n ih =>
    cases fuel with
    | zero => omega
    | succ fuel =>
      rw [segmentPages, if_neg (by rw [h.finished_iff]; omega), ih h.advance (by omega)]
      rfl

lemma whole_of_mem_pagesFrom {p q : PageLoad} {n : Nat} (h : p.Whole n) (hq : q ∈ pagesFrom n p) :
    ∃ k, q.Whole (k + 1) := by
  induction n generalizing p with
  | zero => cases hq
  | succ n ih =>
    rcases List.mem_cons.mp hq with rfl | hq
    · exact ⟨n, h⟩
    · exact ih h.advance hq

section Accepted

variable {phdr : Phdr} {fileLength : Int}

structure Phdr.Accepted (phdr : Phdr) (fileLength : Int) : Prop where
  sameOfs : pgOfs phdr.offset = pgOfs phdr.vaddr
  inFile : phdr.offset ≤ ofInt32 fileLength
  filesz_le : phdr.filesz ≤ phdr.memsz
  memsz_pos : 0 < phdr.memsz
  low : pgSize ≤ phdr.vaddr
  top : phdr.vaddr + phdr.memsz < physBase

lemma validateSegment_iff : validateSegment phdr fileLength = true ↔ phdr.Accepted fileLength := by
  have hv := phdr.vaddr_lt
  have hm := phdr.memsz_lt
  simp only [validateSegment, isUserVaddr, Bool.and_eq_true, decide_eq_true_eq]
  constructor
  · rintro ⟨⟨⟨⟨⟨⟨⟨h₁, h₂⟩, h₃⟩, h₄⟩, h₅⟩, h₆⟩, h₇⟩, h₈⟩
    refine ⟨h₁, h₂, h₃, Nat.pos_of_ne_zero h₄, h₈, ?_⟩
    simp only [wrap, physBase] at *
    omega
  · rintro ⟨h₁, h₂, h₃, h₄, h₅, h₆⟩
    simp only [wrap, physBase] at *
    omega

namespace Phdr.Accepted

lemma pageOffset_lt (phdr : Phdr) : phdr.pageOffset < pgSize := Nat.mod_lt _ (by decide)

lemma memPage_add (phdr : Phdr) : phdr.memPage + phdr.pageOffset = phdr.vaddr := by
  simp only [Phdr.memPage, Phdr.pageOffset, pgRoundDown, pgOfs, pgSize]
  omega

variable (h : phdr.Accepted fileLength)

include h

lemma readBytes_eq : phdr.readBytes = if 0 < phdr.filesz then phdr.pageOffset + phdr.filesz else 0 := by
  have hofs := pageOffset_lt phdr
  have hle := h.filesz_le
  have htop := h.top
  simp only [pgSize, physBase] at hofs htop
  rw [Phdr.readBytes, wrap_of_lt (by omega)]

lemma roundUp_eq : roundUp (wrap (phdr.pageOffset + phdr.memsz)) pgSize =
      (phdr.pageOffset + phdr.memsz + 4095) / 4096 * 4096 := by
  have hofs := pageOffset_lt phdr
  have htop := h.top
  simp only [pgSize, physBase] at hofs htop
  rw [wrap_of_lt (by omega), roundUp, divRoundUp, wrap_of_lt (by simp only [pgSize]; omega)]
  rfl

lemma readBytes_le : phdr.readBytes ≤ phdr.pageOffset + phdr.memsz := by
  have hle := h.filesz_le
  rw [h.readBytes_eq]
  split <;> omega

lemma bytes_eq : phdr.readBytes + phdr.zeroBytes = roundUp (wrap (phdr.pageOffset + phdr.memsz)) pgSize := by
  have hread := h.readBytes_le
  have hround := h.roundUp_eq
  have hofs := pageOffset_lt phdr
  have htop := h.top
  simp only [pgSize, physBase] at hofs htop
  rw [Phdr.zeroBytes]
  split
  · rw [wrap]
    omega
  · next hzero =>
    rw [Phdr.readBytes, if_neg hzero, Nat.zero_add]

lemma whole : phdr.firstPage.Whole phdr.pageCnt := by
  have hbytes := h.bytes_eq
  have hround := h.roundUp_eq
  have hpage := memPage_add phdr
  have htop := h.top
  have hlow := h.low
  have hcnt : pgSize * phdr.pageCnt = phdr.readBytes + phdr.zeroBytes := by
    rw [Phdr.pageCnt, hbytes, hround]
    exact Nat.mul_div_cancel' (Nat.dvd_mul_left _ _)
  have hmem : phdr.memPage = phdr.vaddr / 4096 * 4096 := rfl
  refine ⟨hcnt.symm, Nat.mul_mod_left _ _, ?_, ?_⟩
  · change pgSize ≤ phdr.memPage
    simp only [pgSize] at *
    omega
  · change phdr.memPage + pgSize * phdr.pageCnt ≤ physBase
    rw [hcnt, hbytes, hround]
    simp only [physBase] at *
    omega

end Phdr.Accepted

structure Phdr.Fits (phdr : Phdr) : Prop where
  region : phdr.vaddr + phdr.memsz < 4294967296
  read : phdr.pageOffset + phdr.filesz < 4294967296
  round : phdr.pageOffset + phdr.memsz + pgSize - 1 < 4294967296
  zero : phdr.readBytes + phdr.zeroBytes = roundUp (phdr.pageOffset + phdr.memsz) pgSize
  bytes : wrap (phdr.readBytes + phdr.zeroBytes) % pgSize = 0
  upage : pgOfs phdr.memPage = 0
  ofs : toInt32 phdr.filePage % pgSize = 0
  pages : ∃ pages, (∀ fuel, phdr.pageCnt < fuel → segmentPages fuel phdr.firstPage = some pages) ∧
    pages.length = phdr.pageCnt ∧
    ∀ p ∈ pages, p.pageZeroBytes ≤ p.zeroBytes ∧ pgSize ≤ p.upage ∧ p.upage + pgSize ≤ physBase

end Accepted

lemma accepted_fits {phdr : Phdr} {fileLength : Int} (h : phdr.Accepted fileLength) : phdr.Fits := by
  have hofs := Phdr.Accepted.pageOffset_lt phdr
  have hle := h.filesz_le
  have htop := h.top
  have hwhole := h.whole
  have hbytes := h.bytes_eq
  simp only [pgSize, physBase] at hofs htop
  have hwrap : wrap (phdr.pageOffset + phdr.memsz) = phdr.pageOffset + phdr.memsz :=
    wrap_of_lt (by omega)
  have hsum : phdr.readBytes + phdr.zeroBytes = pgSize * phdr.pageCnt := hwhole.bytes
  refine ⟨by omega, by omega, by simp only [pgSize]; omega, by rw [hbytes, hwrap], ?_, hwhole.start, ?_, ?_⟩
  · have hend := hwhole.top
    rw [hsum, wrap_of_lt (by simp only [pgSize, physBase] at *; omega)]
    exact Nat.mul_mod_right _ _
  · have hfile : phdr.filePage = phdr.offset / 4096 * 4096 := rfl
    rw [toInt32]
    simp only [pgSize]
    split <;> omega
  · refine ⟨_, fun fuel hfuel => segmentPages_eq hwhole hfuel, length_pagesFrom _ _, fun p hp => ?_⟩
    obtain ⟨k, hk⟩ := whole_of_mem_pagesFrom hwhole hp
    have hend := hk.top
    rw [Nat.mul_succ] at hend
    exact ⟨hk.pageZeroBytes_le, hk.low, by omega⟩

theorem accepted_segment_fits {phdr : Phdr} {fileLength : Int}
    (h : validateSegment phdr fileLength = true) : phdr.Fits :=
  accepted_fits (validateSegment_iff.mp h)

def sampleHeader : Phdr := .ofBytes (word 1 ++ word 0xffc ++ word 0x8048ffc ++ word 0 ++ word 5000 ++
  word 5100 ++ word 6 ++ word 4096)

theorem accepted_segment_fits_across_pages :
    validateSegment sampleHeader 9092 = true ∧ sampleHeader.pageCnt = 3 ∧ sampleHeader.Fits :=
  have h : validateSegment sampleHeader 9092 = true := by decide
  ⟨h, by decide, accepted_segment_fits h⟩

end Pintos.Userprog
