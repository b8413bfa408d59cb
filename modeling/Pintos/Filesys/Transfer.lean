import Pintos.Filesys.Directories

/-! What reads and writes of an inode's data transfer, chunk by chunk. -/

namespace Pintos.Filesys

open Pintos.Foundation Pintos.Kernel

structure Obj where
  sector : Nat
  start : Nat
  length : Nat
  length_lt : length < 2147483648
  deriving DecidableEq

namespace Obj

def data (o : Obj) : InodeDisk := { start := o.start, length := o.length, magic := inodeMagic }

def cnt (o : Obj) : Nat := bytesToSectors o.length

def base (o : Obj) : Nat := blockSectorSize * o.start

end Obj

def Fs.content (s : Fs) (o : Obj) : List Byte := s.disk.read o.base o.length

lemma le_bytesToSectors {n : Nat} (h : n < 2147483648) : n ≤ blockSectorSize * bytesToSectors n := by
  have he : ofInt32 ((n : Int) + 511) = n + 511 := by
    rw [ofInt32]
    omega
  rw [bytesToSectors, he, blockSectorSize]
  by_cases hn : n + 511 < 2147483648
  · have hd : ((n + 511 : Nat) : Int).tdiv 512 = ((n + 511) / 512 : Nat) := by
      rw [Int.tdiv_eq_ediv_of_nonneg (by omega)]
      omega
    rw [toInt32_of_lt hn, hd, ofInt32_natCast (by omega)]
    omega
  · have hd : (((n + 511 : Nat) : Int) - 4294967296).tdiv 512 = -(((4294967296 - (n + 511)) / 512 : Nat) : Int) := by
      rw [show ((n + 511 : Nat) : Int) - 4294967296 = -((4294967296 - (n + 511) : Nat) : Int) by omega,
        Int.neg_tdiv, Int.tdiv_eq_ediv_of_nonneg (by omega)]
      omega
    rw [toInt32_of_ge (by omega), hd, ofInt32]
    omega

namespace Obj

variable {o : Obj} {sectors : Nat}

lemma length_le (o : Obj) : o.length ≤ blockSectorSize * o.cnt := le_bytesToSectors o.length_lt

variable {offset : Nat}

lemma byteToSector_eq (hlt : sectors + 31 < 4294967296) (hp : o.start + o.cnt ≤ sectors) (ho : offset < o.length) :
    byteToSector o.data offset = o.start + offset / 512 ∧ o.start + offset / 512 < sectors := by
  have hl := o.length_le
  rw [blockSectorSize] at hl
  have hs : o.start + offset / 512 < sectors := by omega
  refine ⟨?_, hs⟩
  rw [byteToSector, if_pos (by simpa [data] using ho), blockSectorSize]
  exact wrap_of_lt (by simp only [data]; omega)

lemma chunkSize_eq (o : Obj) (size offset : Nat) :
    chunkSize o.data size offset = min size (min (o.length - offset) (512 - offset % 512)) := rfl

lemma span_eq_zero {size : Nat} (h : chunkSize o.data size offset = 0) :
    min size (o.length - offset) = 0 := by
  rw [chunkSize_eq] at h
  omega

lemma chunk_facts {size : Nat} (h : chunkSize o.data size offset ≠ 0) :
    offset < o.length ∧
      (chunkSize o.data size offset ≤ size ∧ offset % 512 + chunkSize o.data size offset ≤ 512) ∧
      min size (o.length - offset) = chunkSize o.data size offset +
        min (size - chunkSize o.data size offset)
          (o.length - (offset + chunkSize o.data size offset)) := by
  rw [chunkSize_eq] at *
  omega

lemma address (o : Obj) (offset : Nat) :
    512 * (o.start + offset / 512) + offset % 512 = o.base + offset := by
  rw [base, blockSectorSize]
  omega

end Obj

def Bounced (offset total : Nat) : Prop :=
  total ≠ 0 ∧ (offset % 512 ≠ 0 ∨ (offset + total) % 512 ≠ 0)

lemma Obj.bounced {o : Obj} {size offset : Nat} (hc : chunkSize o.data size offset ≠ 0)
    (hf : ¬ (offset % blockSectorSize = 0 ∧ chunkSize o.data size offset = blockSectorSize)) :
    Bounced offset (min size (o.length - offset)) ∧ (offset % 512 = 0 → min size (o.length - offset) < 512) := by
  rw [Obj.chunkSize_eq] at hc hf
  rw [blockSectorSize] at hf
  rw [Bounced]
  omega

structure Transfers (bounce : Bool) (ms ms' : List Bool) (offset n total : Nat) : Prop where
  le : n ≤ total
  whole : n = total ↔ bounce = true ∨ ¬ Bounced offset total ∨ (malloc ms).1 = true
  kept : bounce = true ∨ ¬ Bounced offset total → ms' = ms
  popped : bounce = false → Bounced offset total → ms' = (malloc ms).2
  -- a transfer that stops short has moved the whole sectors before the first partial one
  short : n = total ∨ n = if offset % 512 = 0 then 512 * (total / 512) else 0

namespace Transfers

variable {bounce : Bool} {ms ms' : List Bool} {offset n total c : Nat}

lemma quiet (h : Transfers bounce ms ms' offset n total) (hm : ms = []) : n = total ∧ ms' = [] := by
  subst hm
  refine ⟨h.whole.mpr (.inr (.inr rfl)), ?_⟩
  by_cases hk : bounce = true ∨ ¬ Bounced offset total
  · exact h.kept hk
  · simp only [not_or, not_not, Bool.not_eq_true] at hk
    exact h.popped hk.1 hk.2

lemma zero (bounce : Bool) (ms : List Bool) (offset : Nat) : Transfers bounce ms ms offset 0 0 where
  le := le_rfl
  whole := ⟨fun _ => .inr (.inl fun h => h.1 rfl), fun _ => rfl⟩
  kept _ := rfl
  popped _ h := (h.1 rfl).elim
  short := .inl rfl

lemma full (h : Transfers bounce ms ms' (offset + c) n total) (ho : offset % 512 = 0) (hc : c = 512) :
    Transfers bounce ms ms' offset (c + n) (c + total) := by
  have hb : Bounced offset (c + total) ↔ Bounced (offset + c) total := by
    simp only [Bounced]
    omega
  have hle := h.le
  have hshort := h.short
  rw [if_pos (by omega)] at hshort
  refine ⟨by omega, ?_, ?_, ?_, ?_⟩
  · rw [hb, ← h.whole]
    omega
  · rw [hb]
    exact h.kept
  · rw [hb]
    exact h.popped
  · rw [if_pos ho]
    omega

lemma granted {ms₁ : List Bool} (h : Transfers true ms₁ ms' (offset + c) n total)
    (hb : Bounced offset (c + total)) (hg : (if bounce then (true, ms) else malloc ms) = (true, ms₁)) :
    Transfers bounce ms ms' offset (c + n) (c + total) := by
  have hn : n = total := h.whole.mpr (.inl rfl)
  have hm : ms' = ms₁ := h.kept (.inl rfl)
  refine ⟨by omega, ⟨fun _ => ?_, fun _ => by omega⟩, ?_, ?_, .inl (by omega)⟩
  · cases bounce with
    | true => exact .inl rfl
    | false => exact .inr (.inr (by simpa using congrArg Prod.fst hg))
  · rintro (rfl | hn)
    · simpa [hm] using (congrArg Prod.snd hg).symm
    · exact (hn hb).elim
  · rintro rfl _
    simpa [hm] using (congrArg Prod.snd hg).symm

lemma refused (hb : Bounced offset total) (hs : offset % 512 = 0 → total < 512)
    (hg : (if bounce then (true, ms) else malloc ms) = (false, ms')) :
    Transfers bounce ms ms' offset 0 total := by
  cases bounce with
  | true => simp at hg
  | false =>
    rw [if_neg Bool.false_ne_true] at hg
    refine ⟨Nat.zero_le total, ⟨fun h => (hb.1 h.symm).elim, ?_⟩, ?_, fun _ _ => by rw [hg], .inr ?_⟩
    · rintro (h | h | h)
      · simp at h
      · exact (h hb).elim
      · simp [hg] at h
    · rintro (h | h)
      · simp at h
      · exact (h hb).elim
    · split <;> omega

lemma stopped (h : Transfers false ms ms' offset n total) (hm : (malloc ms).1 = false) :
    n = if offset % 512 = 0 then 512 * (total / 512) else 0 := by
  refine h.short.elim (fun hn => ?_) id
  have hb : total = 0 ∨ offset % 512 = 0 ∧ (offset + total) % 512 = 0 := by
    simpa [hm, Bounced, or_iff_not_imp_left] using h.whole.mp hn
  split <;> omega

end Transfers

lemma bounce_cases (bounce : Bool) (ms : List Bool) :
    (∃ ms', (if bounce then (true, ms) else malloc ms) = (true, ms')) ∨
      ∃ ms', (if bounce then (true, ms) else malloc ms) = (false, ms') := by
  obtain ⟨ok, ms'⟩ := if bounce then (true, ms) else malloc ms
  cases ok with
  | true => exact .inl ⟨ms', rfl⟩
  | false => exact .inr ⟨ms', rfl⟩

section Loops

variable {o : Obj} {sectors : Nat} (hlt : sectors + 31 < 4294967296) (hp : o.start + o.cnt ≤ sectors)

include hlt hp

lemma blockRead_eq (disk : Memory) {offset : Nat} (ho : offset < o.length) :
    blockRead disk sectors (byteToSector o.data offset) =
      .ok (disk.read (512 * (o.start + offset / 512)) 512) := by
  obtain ⟨he, hs⟩ := Obj.byteToSector_eq hlt hp ho
  rw [he, blockRead, if_pos hs]
  rfl

lemma blockWrite_eq (disk : Memory) (buffer : List Byte) {offset : Nat} (ho : offset < o.length) :
    blockWrite disk sectors (byteToSector o.data offset) buffer =
      .ok (disk.write (512 * (o.start + offset / 512)) buffer) := by
  obtain ⟨he, hs⟩ := Obj.byteToSector_eq hlt hp ho
  rw [he, blockWrite, if_pos hs]
  rfl

lemma readLoop_eq (disk : Memory) (fuel : Nat) (bounce : Bool) (ms : List Bool) (size offset : Nat)
    (hf : size ≤ fuel) :
    ∃ n ms', readLoop disk sectors o.data fuel bounce ms size offset =
        .ok (disk.read (o.base + offset) n, ms') ∧
      Transfers bounce ms ms' offset n (min size (o.length - offset)) := by
  induction fuel generalizing bounce ms size offset with
  | zero =>
    obtain rfl : size = 0 := by omega
    exact ⟨0, ms, rfl, by rw [Nat.zero_min]; exact .zero _ _ _⟩
  | succ fuel ih =>
    rw [readLoop]
    by_cases hc : chunkSize o.data size offset = 0
    · refine ⟨0, ms, by simp only [hc, if_true]; rfl, ?_⟩
      rw [Obj.span_eq_zero hc]
      exact .zero _ _ _
    obtain ⟨ho, hcs, hsplit⟩ := Obj.chunk_facts hc
    have ha := o.address offset
    simp only [if_neg hc, blockRead_eq hlt hp disk ho, bind_ok]
    rw [hsplit]
    by_cases hfull : offset % blockSectorSize = 0 ∧ chunkSize o.data size offset = blockSectorSize
    · obtain ⟨n, ms', hrun, ht⟩ := ih bounce ms (size - chunkSize o.data size offset)
        (offset + chunkSize o.data size offset) (by omega)
      refine ⟨chunkSize o.data size offset + n, ms', ?_, ht.full hfull.1 hfull.2⟩
      rw [if_pos hfull, hrun, bind_ok, pure_eq_ok, Memory.read_add, hfull.2, ← Nat.add_assoc, ← ha,
        show offset % 512 = 0 from hfull.1]
      rfl
    · obtain ⟨hb, hs⟩ := hsplit ▸ Obj.bounced hc hfull
      rw [if_neg hfull]
      rcases bounce_cases bounce ms with ⟨ms₁, hg⟩ | ⟨ms₁, hg⟩
      · obtain ⟨n, ms', hrun, ht⟩ := ih true ms₁ (size - chunkSize o.data size offset)
          (offset + chunkSize o.data size offset) (by omega)
        refine ⟨chunkSize o.data size offset + n, ms', ?_, ht.granted hb hg⟩
        simp only [hg, if_true, hrun, bind_ok, pure_eq_ok]
        rw [Memory.read_add, Memory.drop_read, Memory.take_read, blockSectorSize, ha,
          Nat.min_eq_left (by omega), ← Nat.add_assoc]
      · exact ⟨0, ms₁, by simp only [hg]; rfl, .refused hb hs hg⟩

lemma writeLoop_eq (disk : Memory) (fuel : Nat) (bounce : Bool) (ms : List Bool)
    (buffer : List Byte) (offset : Nat) (hf : buffer.length ≤ fuel) :
    ∃ n ms', writeLoop sectors o.data fuel bounce ms disk buffer offset =
        .ok (n, disk.write (o.base + offset) (buffer.take n), ms') ∧
      Transfers bounce ms ms' offset n (min buffer.length (o.length - offset)) := by
  induction fuel generalizing bounce ms disk buffer offset with
  | zero =>
    obtain rfl : buffer = [] := List.eq_nil_of_length_eq_zero (by omega)
    exact ⟨0, ms, by rw [List.take_nil, Memory.write_nil]; rfl, .zero _ _ _⟩
  | succ fuel ih =>
    rw [writeLoop]
    by_cases hc : chunkSize o.data buffer.length offset = 0
    · refine ⟨0, ms, by simp only [hc, if_true, List.take_zero, Memory.write_nil]; rfl, ?_⟩
      rw [Obj.span_eq_zero hc]
      exact .zero _ _ _
    obtain ⟨ho, hcs, hsplit⟩ := Obj.chunk_facts hc
    have ha := o.address offset
    have hbounced := Obj.bounced hc
    simp only [if_neg hc, blockRead_eq hlt hp _ ho, blockWrite_eq hlt hp _ _ ho, bind_ok]
    generalize chunkSize o.data buffer.length offset = c at *
    have hjoin : ∀ n, (disk.write (o.base + offset) (buffer.take c)).write (o.base + (offset + c))
        ((buffer.drop c).take n) = disk.write (o.base + offset) (buffer.take (c + n)) := by
      intro n
      rw [List.take_add, Memory.write_append, List.length_take, Nat.min_eq_left (by omega),
        Nat.add_assoc]
    rw [hsplit, ← List.length_drop]
    by_cases hfull : offset % blockSectorSize = 0 ∧ c = blockSectorSize
    · obtain ⟨n, ms', hrun, ht⟩ := ih (disk.write (o.base + offset) (buffer.take c)) bounce ms
        (buffer.drop c) (offset + c) (by rw [List.length_drop]; omega)
      refine ⟨c + n, ms', ?_, ht.full hfull.1 hfull.2⟩
      rw [hjoin] at hrun
      rw [if_pos hfull, show 512 * (o.start + offset / 512) = o.base + offset by
        rw [← ha, show offset % 512 = 0 from hfull.1]; rfl, hrun, bind_ok, pure_eq_ok]
    · have hover : disk.write (512 * (o.start + offset / 512)) (overlay
          (disk.read (512 * (o.start + offset / 512)) 512) (offset % 512) (buffer.take c)) =
          disk.write (o.base + offset) (buffer.take c) := by
        rw [Memory.write_overlay disk (by rw [List.length_take]; omega), ha]
      have hpart : 0 < offset % blockSectorSize ∨ c < blockSectorSize - offset % blockSectorSize := by
        rw [blockSectorSize] at hfull ⊢
        omega
      obtain ⟨hb, hs⟩ := hsplit ▸ hbounced hfull
      rw [← List.length_drop] at hb hs
      rw [if_neg hfull]
      rcases bounce_cases bounce ms with ⟨ms₁, hg⟩ | ⟨ms₁, hg⟩
      · obtain ⟨n, ms', hrun, ht⟩ := ih (disk.write (o.base + offset) (buffer.take c)) true ms₁
          (buffer.drop c) (offset + c) (by rw [List.length_drop]; omega)
        refine ⟨c + n, ms', ?_, ht.granted hb hg⟩
        rw [hjoin] at hrun
        simp only [hg, if_true, if_pos hpart]
        rw [blockSectorSize, hover, hrun, bind_ok, pure_eq_ok]
      · refine ⟨0, ms₁, ?_, .refused hb hs hg⟩
        simp only [hg, List.take_zero, Memory.write_nil]
        rfl

end Loops

section Inodes

variable {s : Fs} {o : Obj} {p : Nat} {i : Inode} (hp : o.start + o.cnt ≤ s.sectors)
  (hi : s.inode p = some i) (hd : i.data = o.data)

lemma inodeAt_eq (hi : s.inode p = some i) : s.inodeAt p = .ok i := by
  rw [Fs.inodeAt, hi]

lemma fileAt_eq {f : Nat} {x : File} (hf : s.file f = some x) : s.fileAt f = .ok x := by
  rw [Fs.fileAt, hf]

include hp hi hd

lemma inodeReadAt_eq (size : Int) (offset : Nat) :
    ∃ n ms, inodeReadAt s p size offset =
        .ok (s.disk.read (o.base + offset) n, { s with mallocs := ms }) ∧
      Transfers false s.mallocs ms offset n (min size.toNat (o.length - offset)) := by
  obtain ⟨n, ms, hrun, ht⟩ :=
    readLoop_eq s.sectors_lt hp s.disk size.toNat false s.mallocs size.toNat offset le_rfl
  refine ⟨n, ms, ?_, ht⟩
  rw [inodeReadAt, inodeAt_eq hi, bind_ok, hd, hrun]
  rfl

lemma inodeWriteAt_eq (hw : i.denyWriteCnt = 0) (buffer : List Byte) (size : Int) (offset : Nat) :
    ∃ n ms, inodeWriteAt s p buffer size offset =
        .ok (n, { s with disk := s.disk.write (o.base + offset) (buffer.take n), mallocs := ms }) ∧
      Transfers false s.mallocs ms offset n
        (min (min size.toNat buffer.length) (o.length - offset)) := by
  obtain ⟨n, ms, hrun, ht⟩ := writeLoop_eq s.sectors_lt hp s.disk size.toNat false s.mallocs
    (buffer.take size.toNat) offset (by rw [List.length_take]; omega)
  rw [List.length_take] at ht
  have hn : n ≤ size.toNat := by
    have hle := ht.le
    omega
  refine ⟨n, ms, ?_, ht⟩
  rw [List.take_take, Nat.min_eq_left hn] at hrun
  rw [inodeWriteAt, inodeAt_eq hi, bind_ok, if_neg (by simpa using hw), hd, hrun]
  rfl

end Inodes

end Pintos.Filesys
