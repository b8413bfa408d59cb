import Pintos.Filesys.Transfer
import Pintos.Kernel.BitmapScan

/-! The free map on the device, and what allocating, releasing and creating do to it. -/

namespace Pintos.Filesys

open Pintos.Foundation Pintos.Kernel

variable {n : Nat}

def SameBits (b c : Bitmap) : Prop := c.bitCnt = b.bitCnt ∧ ∀ k < b.bitCnt, c.bit k = b.bit k

lemma SameBits.refl (b : Bitmap) : SameBits b b := ⟨rfl, fun _ _ => rfl⟩

variable {b : Bitmap} {ms : List Bool}

lemma SameBits.trans {c d : Bitmap} (h : SameBits b c) (h' : SameBits c d) : SameBits b d :=
  ⟨h'.1.trans h.1, fun k hk => (h'.2 k (h.1.symm ▸ hk)).trans (h.2 k hk)⟩

lemma SameBits.symm {c : Bitmap} (h : SameBits b c) : SameBits c b :=
  ⟨h.1.symm, fun k hk => (h.2 k (h.1 ▸ hk)).symm⟩

/-- The device holds the free map, up to the bits past its end. -/
def Fs.Synced (s : Fs) (fm : Obj) : Prop := ∃ c, SameBits s.freeMap c ∧ s.content fm = bitmapBytes c

lemma Fs.Synced.of_eq {s : Fs} {fm : Obj} (h : s.content fm = bitmapBytes s.freeMap) : s.Synced fm :=
  ⟨s.freeMap, .refl _, h⟩

lemma sameBits_of_undone {c d : Bitmap} {x cnt : Nat} (hf : b.Fits false cnt x)
    (h : b.Sets c x cnt true) (h' : c.Sets d x cnt false) : SameBits b d := by
  refine ⟨h'.1.trans h.1, fun k hk => ?_⟩
  rw [h'.2 k (h.1.symm ▸ hk), h.2 k hk]
  by_cases hx : x ≤ k ∧ k < x + cnt
  · rw [if_pos hx, ← hf.2 (k - x) (by omega), Nat.add_sub_cancel' hx.1]
  · rw [if_neg hx, if_neg hx]

lemma byteCnt_eq (h : n + 31 < 4294967296) : byteCnt n = 4 * ((n + 31) / 32) := by
  have he : wrap (n + 32 - 1) = n + 31 := wrap_of_lt (by omega)
  rw [byteCnt, elemCnt, divRoundUp, elemBits, he, wrap_of_lt (by omega)]

lemma byteCnt_lt (h : n + 31 < 4294967296) : byteCnt n < 2147483648 := by
  rw [byteCnt_eq h]
  omega

lemma length_bitmapBytes (b : Bitmap) : (bitmapBytes b).length = byteCnt b.bitCnt := by
  have hs := b.size_bits
  rw [elemCnt_eq] at hs
  rw [bitmapBytes, List.length_flatMap, byteCnt_eq b.bitCnt_lt]
  simp [hs, Nat.mul_comm]

structure Mapped (s : Fs) (fm : Obj) : Prop where
  bitCnt : s.freeMap.bitCnt = s.sectors
  length : fm.length = byteCnt s.sectors
  placed : fm.start + fm.cnt ≤ s.sectors
  file : ∀ f, s.freeMapFile = some f → ∃ x i, s.file f = some x ∧ s.inode x.inode = some i ∧
    i.data = fm.data ∧ i.denyWriteCnt = 0

namespace Mapped

variable {s : Fs} {fm : Obj}

lemma with_map (h : Mapped s fm) {c : Bitmap} (hc : c.bitCnt = s.freeMap.bitCnt) (disk : Memory)
    (ms : List Bool) : Mapped { s with freeMap := c, disk, mallocs := ms } fm :=
  ⟨hc.trans h.bitCnt, h.length, h.placed, h.file⟩

lemma length_bytes (h : Mapped s fm) : (bitmapBytes s.freeMap).length = fm.length := by
  rw [length_bitmapBytes, h.bitCnt, h.length]

lemma bitmapWrite_eq (h : Mapped s fm) {f : Nat} (hf : s.freeMapFile = some f) :
    ∃ n ms, bitmapWrite s f = .ok (n = fm.length,
        { s with disk := s.disk.write fm.base ((bitmapBytes s.freeMap).take n), mallocs := ms }) ∧
      Transfers false s.mallocs ms 0 n fm.length := by
  obtain ⟨x, i, hx, hi, hd, hw⟩ := h.file f hf
  obtain ⟨n, ms, hrun, ht⟩ := inodeWriteAt_eq h.placed hi hd hw (bitmapBytes s.freeMap)
    (byteCnt s.freeMap.bitCnt) 0
  have hlen : min (min (byteCnt s.freeMap.bitCnt : Int).toNat (bitmapBytes s.freeMap).length)
      (fm.length - 0) = fm.length := by
    rw [h.length_bytes, h.bitCnt, h.length]
    simp
  rw [hlen] at ht
  refine ⟨n, ms, ?_, ht⟩
  rw [bitmapWrite, fileWriteAt, fileAt_eq hx, bind_ok, hrun, bind_ok, h.bitCnt, ← h.length]
  rfl

end Mapped

structure Allocates (s : Fs) (fm : Obj) (cnt : Nat) (r : Option Nat) (c : Bitmap)
    (bs : List Byte) (ms : List Bool) : Prop where
  written : bs.length ≤ fm.length
  same : r = none → SameBits s.freeMap c
  taken : ∀ x, r = some x → s.freeMap.Fits false cnt x ∧ s.freeMap.Sets c x cnt true ∧
    (s.freeMapFile ≠ none → bs = bitmapBytes c)
  some_iff : r ≠ none ↔ (∃ x, s.freeMap.Fits false cnt x) ∧
    (s.freeMapFile = none ∨ ¬ Bounced 0 fm.length ∨ (malloc s.mallocs).1 = true)
  kept : (∀ x, ¬ s.freeMap.Fits false cnt x) ∨ s.freeMapFile = none ∨ ¬ Bounced 0 fm.length →
    ms = s.mallocs
  popped : (∃ x, s.freeMap.Fits false cnt x) → s.freeMapFile ≠ none → Bounced 0 fm.length →
    ms = (malloc s.mallocs).2
  none_fits : (∀ x, ¬ s.freeMap.Fits false cnt x) → c = s.freeMap ∧ bs = []
  first : ∀ x, r = some x → ∀ y < x, ¬ s.freeMap.Fits false cnt y

lemma scans_error {cnt idx : Nat} (h : b.Scans 0 cnt false idx)
    (he : idx = bitmapError) : ∀ x, ¬ b.Fits false cnt x := by
  rcases h with ⟨_, hn⟩ | ⟨hne, _⟩
  · exact fun x => hn x (Nat.zero_le x)
  · exact (hne he).elim

namespace Allocates

variable {s : Fs} {fm : Obj} {cnt x : Nat} {c : Bitmap}

lemma of_none_fits (h : ∀ x, ¬ s.freeMap.Fits false cnt x) :
    Allocates s fm cnt none s.freeMap [] s.mallocs where
  written := Nat.zero_le _
  same _ := .refl _
  taken x hx := by cases hx
  some_iff := ⟨fun hr => (hr rfl).elim, fun ⟨⟨x, hx⟩, _⟩ => (h x hx).elim⟩
  kept _ := rfl
  popped := fun ⟨x, hx⟩ => (h x hx).elim
  none_fits _ := ⟨rfl, rfl⟩
  first x hx := by cases hx

section

variable (h : s.freeMap.Fits false cnt x) (hs : s.freeMap.Sets c x cnt true)

include h hs

lemma of_unfiled
    (hy : ∀ y < x, ¬ s.freeMap.Fits false cnt y) (hf : s.freeMapFile = none) :
    Allocates s fm cnt (some x) c [] s.mallocs where
  written := Nat.zero_le _
  same hr := by cases hr
  taken y hy := by
    cases hy
    exact ⟨h, hs, fun hn => (hn hf).elim⟩
  some_iff := ⟨fun _ => ⟨⟨x, h⟩, .inl hf⟩, nofun⟩
  kept _ := rfl
  popped _ hn := (hn hf).elim
  none_fits hn := (hn x h).elim
  first _ hx := Option.some.inj hx ▸ hy

variable {bs : List Byte} {r : Option Nat}

lemma of_filed (hy : ∀ y < x, ¬ s.freeMap.Fits false cnt y)
    (hlen : (bitmapBytes c).length = fm.length) (hf : s.freeMapFile ≠ none)
    (ht : Transfers false s.mallocs ms 0 n fm.length)
    (hn : n = fm.length) : Allocates s fm cnt (some x) c ((bitmapBytes c).take n) ms where
  written := by rw [List.length_take]; omega
  same hr := by cases hr
  taken y hy := by
    cases hy
    exact ⟨h, hs, fun _ => by rw [List.take_of_length_le (by omega)]⟩
  some_iff := by
    refine ⟨fun _ => ⟨⟨x, h⟩, .inr ?_⟩, nofun⟩
    exact (ht.whole.mp hn).resolve_left Bool.false_ne_true
  kept hk := ht.kept (.inr ((hk.resolve_left fun hn => hn x h).resolve_left hf))
  popped _ _ hb := ht.popped rfl hb
  none_fits hn := (hn x h).elim
  first _ hx := Option.some.inj hx ▸ hy

lemma of_unwritten {d : Bitmap} (hu : c.Sets d x cnt false)
    (hlen : (bitmapBytes c).length = fm.length) (hf : s.freeMapFile ≠ none)
    (ht : Transfers false s.mallocs ms 0 n fm.length) (hn : n ≠ fm.length) :
    Allocates s fm cnt none d ((bitmapBytes c).take n) ms where
  written := by rw [List.length_take]; omega
  same _ := sameBits_of_undone h hs hu
  taken y hy := by cases hy
  some_iff := by
    refine ⟨fun hr => (hr rfl).elim, fun ⟨_, hg⟩ => (hn (ht.whole.mpr (.inr ?_))).elim⟩
    exact hg.resolve_left hf
  kept hk := ht.kept (.inr ((hk.resolve_left fun hn => hn x h).resolve_left hf))
  popped _ _ hb := ht.popped rfl hb
  none_fits hn := (hn x h).elim
  first y hy := by cases hy

end

lemma bitCnt (h : Allocates s fm cnt r c bs ms) :
    c.bitCnt = s.freeMap.bitCnt := by
  cases r with
  | none => exact (h.same rfl).1
  | some x => exact (h.taken x rfl).2.1.1

lemma quiet (h : Allocates s fm cnt r c bs ms)
    (hm : s.mallocs = []) : ms = [] := by
  by_cases hk : (∀ x, ¬ s.freeMap.Fits false cnt x) ∨ s.freeMapFile = none ∨ ¬ Bounced 0 fm.length
  · rw [h.kept hk, hm]
  · simp only [not_or, not_forall, not_not] at hk
    rw [h.popped hk.1 hk.2.1 hk.2.2, hm]
    rfl

lemma none_of_quiet (h : Allocates s fm cnt none c bs ms)
    (hm : s.mallocs = []) : ∀ x, ¬ s.freeMap.Fits false cnt x := by
  intro x hx
  exact h.some_iff.mpr ⟨⟨x, hx⟩, .inr (.inr (by rw [hm]; rfl))⟩ rfl

lemma synced (h : Allocates s fm cnt r c bs ms)
    (hmap : Mapped s fm) (hm : s.mallocs = []) (hs : s.Synced fm) (hf : s.freeMapFile ≠ none) :
    Fs.Synced { s with freeMap := c, disk := s.disk.write fm.base bs, mallocs := ms } fm := by
  cases r with
  | none =>
    obtain ⟨hc, hb⟩ := h.none_fits (h.none_of_quiet hm)
    rw [hc, hb, Memory.write_nil]
    exact hs
  | some x =>
    obtain ⟨_, hset, hb⟩ := h.taken x rfl
    apply Fs.Synced.of_eq
    have hl : bs.length = fm.length := by
      rw [hb hf, length_bitmapBytes, hset.1, hmap.bitCnt, hmap.length]
    exact (Memory.read_write_of_length s.disk hl).trans (hb hf)

end Allocates

lemma Mapped.freeMapAllocate_eq {s : Fs} {fm : Obj} (h : Mapped s fm) (cnt : Nat) :
    ∃ r c bs ms, freeMapAllocate s cnt =
        .ok (r, { s with freeMap := c, disk := s.disk.write fm.base bs, mallocs := ms }) ∧
      Allocates s fm cnt r c bs ms := by
  obtain ⟨idx, c, hrun, hs, _, hset⟩ := bitmapScanAndFlip_eq s.freeMap cnt false (Nat.zero_le _)
  rw [freeMapAllocate, hrun, bind_ok]
  by_cases he : idx = bitmapError
  · refine ⟨none, s.freeMap, [], s.mallocs, ?_, .of_none_fits (scans_error hs he)⟩
    simp only [if_pos he, Memory.write_nil]
    rfl
  obtain ⟨_, _, hfits, hleast⟩ := hs.resolve_left fun hh => he hh.1
  have hfirst : ∀ y < idx, ¬ s.freeMap.Fits false cnt y := fun y => hleast y (Nat.zero_le y)
  have hsets := hset he
  simp only [if_neg he]
  cases hfile : s.freeMapFile with
  | none =>
    refine ⟨some idx, c, [], s.mallocs, ?_, .of_unfiled hfits hsets hfirst hfile⟩
    simp only [Memory.write_nil]
    rfl
  | some f =>
    have hm := h.with_map hsets.1 s.disk s.mallocs
    obtain ⟨n, ms, hw, ht⟩ := hm.bitmapWrite_eq hfile
    have hne : s.freeMapFile ≠ none := by simp [hfile]
    simp only [hfile] at hw
    simp only [hw, bind_ok]
    by_cases hn : n = fm.length
    · refine ⟨some idx, c, _, ms, ?_, .of_filed hfits hsets hfirst hm.length_bytes hne ht hn⟩
      simp only [hn, decide_true, if_true]
      rfl
    · obtain ⟨d, hd, hu⟩ := bitmapSetMultiple_eq c idx cnt false (hsets.1.symm ▸ hfits.1)
      refine ⟨none, d, _, ms, ?_, .of_unwritten hfits hsets hu hm.length_bytes hne ht hn⟩
      simp only [hn, decide_false, Bool.false_eq_true, if_false, hd, bind_ok]
      rfl

lemma Mapped.freeMapRelease_eq {s : Fs} {fm : Obj} (h : Mapped s fm) (hf : s.freeMapFile ≠ none)
    {sector cnt : Nat} (hu : s.freeMap.Fits true cnt sector) :
    ∃ c bs ms, freeMapRelease s sector cnt =
        .ok { s with freeMap := c, disk := s.disk.write fm.base bs, mallocs := ms } ∧
      s.freeMap.Sets c sector cnt false ∧ bs.length ≤ fm.length ∧
      (s.mallocs = [] → ms = [] ∧ bs = bitmapBytes c) := by
  obtain ⟨r, hr, hiff⟩ := bitmapAll_eq s.freeMap sector cnt hu.1
  obtain ⟨c, hc, hset⟩ := bitmapSetMultiple_eq s.freeMap sector cnt false hu.1
  have hm := h.with_map hset.1 s.disk s.mallocs
  obtain ⟨f, hfile⟩ := Option.ne_none_iff_exists'.mp hf
  obtain ⟨n, ms, hw, ht⟩ := hm.bitmapWrite_eq hfile
  have hlen : (bitmapBytes c).length = fm.length := hm.length_bytes
  have hle := ht.le
  refine ⟨c, (bitmapBytes c).take n, ms, ?_, hset, ?_, fun hms => ?_⟩
  · rw [freeMapRelease, hr, bind_ok, assertThat_pos (hiff.mpr hu), bind_ok, hc, bind_ok]
    simp only [hfile] at hw ⊢
    rw [hw]
    rfl
  · rw [List.length_take]
    omega
  · obtain ⟨hn, hms'⟩ := ht.quiet hms
    exact ⟨hms', List.take_of_length_le (by omega)⟩

lemma zeroLoop_eq {sectors start : Nat} (hlt : sectors + 31 < 4294967296) (n i : Nat) (disk : Memory)
    (h : start + i + n ≤ sectors) :
    zeroLoop sectors start n i disk =
      .ok (disk.write (512 * (start + i)) (List.replicate (512 * n) 0)) := by
  induction n generalizing i disk with
  | zero => simp [zeroLoop, pure_eq_ok]
  | succ n ih =>
    rw [zeroLoop, wrap_of_lt (by omega), blockWrite, if_pos (by omega), bind_ok, ih (i + 1) _ (by omega)]
    congr 1
    rw [show 512 * (n + 1) = 512 + 512 * n by omega, ← List.replicate_append_replicate,
      Memory.write_append, blockSectorSize, List.length_replicate]
    congr 1

def placeInode (disk : Memory) (sector start length : Nat) : Memory :=
  (disk.write (512 * sector) (InodeDisk.toBytes { start, length, magic := inodeMagic })).write
    (512 * start) (List.replicate (512 * bytesToSectors length) 0)

lemma inodeCreate_refused {s : Fs} (sector length : Nat)
    (hm : malloc s.mallocs = (false, ms)) :
    inodeCreate s sector length = .ok (false, { s with mallocs := ms }) := by
  rw [inodeCreate, assertThat_pos (by omega), bind_ok, hm]
  rfl

lemma inodeCreate_negative (s : Fs) (sector : Nat) {length : Int} (h : length < 0) :
    inodeCreate s sector length = .error (.assertion .inodeCreateLength) := by
  rw [inodeCreate, assertThat_neg (by omega), bind_error]

lemma inodeCreate_no_extent {s t : Fs} (sector length : Nat)
    (hm : malloc s.mallocs = (true, ms))
    (ha : freeMapAllocate { s with mallocs := ms } (bytesToSectors length) = .ok (none, t)) :
    inodeCreate s sector length = .ok (false, t) := by
  rw [inodeCreate, assertThat_pos (by omega), bind_ok, hm]
  simp only [if_true, ha, bind_ok]
  rfl

lemma inodeCreate_placed {s t : Fs} {sector start : Nat} (length : Nat)
    (hm : malloc s.mallocs = (true, ms))
    (ha : freeMapAllocate { s with mallocs := ms } (bytesToSectors length) = .ok (some start, t))
    (hs : sector < t.sectors) (hp : start + bytesToSectors length ≤ t.sectors) :
    inodeCreate s sector length =
      .ok (true, { t with disk := placeInode t.disk sector start length }) := by
  rw [inodeCreate, assertThat_pos (by omega), bind_ok, hm]
  simp only [if_true, ha, bind_ok, blockWrite, if_pos hs,
    zeroLoop_eq t.sectors_lt _ 0 _ (show start + 0 + bytesToSectors length ≤ t.sectors from hp)]
  rfl

end Pintos.Filesys
