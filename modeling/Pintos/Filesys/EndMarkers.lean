import Pintos.Filesys.Fsutil
import Pintos.Filesys.Runs

/-! What appending a file leaves on the scratch device. -/

namespace Pintos.Filesys

open Pintos.Foundation Pintos.Kernel Pintos.Lib

namespace Device

def sector (v : Device) (idx : Nat) : List Byte := v.disk.read (blockSectorSize * idx) blockSectorSize

def put (v : Device) (idx : Nat) (bs : List Byte) : Device :=
  { v with disk := v.disk.write (blockSectorSize * idx) bs }

variable {v w : Device} {idx : Nat} {bs cs : List Byte}

lemma write_eq (h : idx < v.sectors) (bs : List Byte) : v.write idx bs = .ok (v.put idx bs) := by
  simp only [write, blockWrite, if_pos h, bind_ok, pure_eq_ok, put]

lemma write_eq_ok : v.write idx bs = .ok w ↔ idx < v.sectors ∧ w = v.put idx bs := by
  by_cases h : idx < v.sectors
  · rw [write_eq h, Except.ok.injEq]
    exact ⟨fun hw => ⟨h, hw.symm⟩, fun hw => hw.2.symm⟩
  · simp [write, blockWrite, h]

@[simp] lemma put_nil (v : Device) (idx : Nat) : v.put idx [] = v := by rw [put, Memory.write_nil]

variable {k : Nat}

lemma put_append (hbs : bs.length = blockSectorSize * k) :
    (v.put idx bs).put (idx + k) cs = v.put idx (bs ++ cs) := by
  rw [put, put, put, Memory.write_append, hbs, Nat.mul_add]

lemma put_again (h : bs.length ≤ cs.length) : (v.put idx bs).put idx cs = v.put idx cs := by
  have hover : (v.disk.write (blockSectorSize * idx) ([] ++ bs)).write (blockSectorSize * idx + 0) cs =
      v.disk.write (blockSectorSize * idx) ([] ++ cs) := v.disk.write_overwrite _ h
  rw [put, put, put]
  exact congrArg (fun disk => { v with disk }) hover

lemma sector_put_of_lt (h : k < idx) : (v.put idx bs).sector k = v.sector k := by
  apply Memory.read_write_of_apart
  have hle := Nat.mul_le_mul_left blockSectorSize (Nat.succ_le_of_lt h)
  rw [Nat.mul_succ] at hle
  exact .inl hle

lemma sector_put_of_le {n : Nat} (hbs : bs.length = blockSectorSize * n) (h : idx + n ≤ k) :
    (v.put idx bs).sector k = v.sector k := by
  apply Memory.read_write_of_apart
  rw [hbs, ← Nat.mul_add]
  exact .inr (Nat.mul_le_mul_left _ h)

lemma sector_put (h : bs.length = blockSectorSize) : (v.put idx bs).sector idx = bs :=
  Memory.read_write_of_length _ h

end Device

lemma chunkOf_eq (size : Nat) : chunkOf size = min size blockSectorSize := by
  rw [chunkOf]
  split <;> omega

lemma blocked_pad {bs : List Byte} {size : Nat} (h : bs.length = chunkOf size) :
    bs ++ zeros (blockSectorSize - chunkOf size) = padded blockSectorSize bs := by
  have hle := chunkOf_eq size
  rw [padded_of_le (by omega), h]
  rfl

variable {s t : Fs} {dst dst' : Device} {f sector sector' : Nat}

lemma appendLoop_writes {fuel size : Nat} (hfuel : size ≤ fuel)
    (h : appendLoop f fuel s dst sector size = .ok (t, dst', sector')) :
    ∃ bs : List Byte, bs.length = size ∧ dst' = dst.put sector (blocked blockSectorSize bs) ∧
      sector' = sector + blockCnt blockSectorSize size := by
  have hpos : 0 < blockSectorSize := by decide
  induction fuel generalizing s dst sector size with
  | zero =>
    obtain rfl : size = 0 := by omega
    cases h
    exact ⟨[], rfl, by rw [blocked_nil hpos, Device.put_nil], by rw [blockCnt_zero hpos, Nat.add_zero]⟩
  | succ fuel ih =>
    by_cases hsize : 0 < size
    · rw [appendLoop, if_pos hsize] at h
      by_cases hroom : dst.sectors ≤ sector
      · rw [if_pos hroom] at h
        cases h
      rw [if_neg hroom] at h
      obtain ⟨⟨chunk, u⟩, hread, h⟩ := bind_eq_ok.mp h
      by_cases hlen : chunk.length = chunkOf size
      · simp only [if_pos hlen] at h
        obtain ⟨dst₁, hwrite, h⟩ := bind_eq_ok.mp h
        obtain ⟨hlt, rfl⟩ := Device.write_eq_ok.mp hwrite
        have hsectors := dst.sectors_lt
        rw [wrap_of_lt (by omega)] at h
        have hmin := chunkOf_eq size
        obtain ⟨bs, hbs, rfl, rfl⟩ := ih (by omega) h
        have hne : chunk ≠ [] := List.ne_nil_of_length_pos (by omega)
        have hfull : chunk.length = blockSectorSize ∨ chunk.length < blockSectorSize ∧ bs = [] := by
          by_cases hle : blockSectorSize ≤ size
          · exact .inl (by omega)
          · exact .inr ⟨by omega, List.eq_nil_of_length_eq_zero (by omega)⟩
        refine ⟨chunk ++ bs, by rw [List.length_append]; omega, ?_, ?_⟩
        · rw [blocked_pad hlen, blocked_append hpos hne hfull]
          exact Device.put_append (k := 1) (length_padded _ _)
        · rw [blockCnt_step hpos hsize]
          have hsub : size - chunkOf size = size - blockSectorSize := by omega
          rw [hsub]
          omega
      · simp only [if_neg hlen] at h
        cases h
    · obtain rfl : size = 0 := by omega
      cases h
      exact ⟨[], rfl, by rw [blocked_nil hpos, Device.put_nil], by rw [blockCnt_zero hpos, Nat.add_zero]⟩

def lengthOf (s : Fs) (fileName : Name) : Except Panic Int := do
  match ← filesysOpen { s with mallocs := (malloc s.mallocs).2 } fileName with
  | (none, _) => .error .openFailed
  | (some src, s) => fileLength s src

def archiveEnd (sector len : Nat) : Nat := sector + (1 + blockCnt blockSectorSize len)

def endMark (beyond : Byte) : List Byte := zeros (blockSectorSize - 1) ++ [beyond]

lemma length_endMark (beyond : Byte) : (endMark beyond).length = blockSectorSize := by
  rw [endMark, List.length_append, zeros, List.length_replicate]
  rfl

lemma length_archived {name header bs : List Byte} {len : Int}
    (h : ustarMakeHeader name .regular len = some header) : (header ++ blocked blockSectorSize bs).length =
      blockSectorSize * (1 + blockCnt blockSectorSize bs.length) := by
  rw [List.length_append, length_blocked, length_ustarMakeHeader h, Nat.mul_add, Nat.mul_one]
  rfl

variable {beyond : Byte} {name : Name}

section

variable (h : fsutilAppend s (some dst) sector name beyond = .ok (t, dst', sector'))

include h

lemma fsutilAppend_writes :
    ∃ (len : Int) (header bs : List Byte), ustarMakeHeader name.val .regular len = some header ∧
      lengthOf s name = .ok len ∧ bs.length = len.toNat ∧ sector' = archiveEnd sector len.toNat ∧
      sector' < dst.sectors ∧ dst' = dst.put sector (header ++ blocked blockSectorSize bs ++ endMark beyond) := by
  rw [fsutilAppend] at h
  rcases hm : malloc s.mallocs with ⟨ok, ms⟩
  simp only [hm] at h
  by_cases hok : ok
  · rw [if_pos hok] at h
    obtain ⟨⟨src, s₁⟩, hopen, h⟩ := bind_eq_ok.mp h
    cases src with
    | none => cases h
    | some src =>
      obtain ⟨len, hlen, h⟩ := bind_eq_ok.mp h
      cases hheader : ustarMakeHeader name.val .regular len with
      | none => simp [hheader] at h
      | some header =>
        simp only [hheader] at h
        obtain ⟨dst₁, hwrite, h⟩ := bind_eq_ok.mp h
        obtain ⟨hlt, rfl⟩ := Device.write_eq_ok.mp hwrite
        have hsectors := dst.sectors_lt
        rw [wrap_of_lt (by omega)] at h
        obtain ⟨⟨s₂, dst₂, k⟩, hloop, h⟩ := bind_eq_ok.mp h
        obtain ⟨bs, hbs, rfl, rfl⟩ := appendLoop_writes le_rfl hloop
        obtain ⟨dst₃, hmark, h⟩ := bind_eq_ok.mp h
        obtain ⟨hroom, rfl⟩ := Device.write_eq_ok.mp hmark
        obtain ⟨dst₄, hmark', h⟩ := bind_eq_ok.mp h
        obtain ⟨-, rfl⟩ := Device.write_eq_ok.mp hmark'
        obtain ⟨s₃, hclose, h⟩ := bind_eq_ok.mp h
        cases h
        refine ⟨len, header, bs, hheader, ?_, hbs, Nat.add_assoc _ _ _, hroom, ?_⟩
        · simp only [lengthOf, hm, hopen, hlen, bind_ok]
        · have hhead : header.length = blockSectorSize * 1 := length_ustarMakeHeader hheader
          have hzeros : (zeros blockSectorSize).length ≤ (endMark beyond).length := by
            rw [length_endMark, zeros, List.length_replicate]
          rw [← hbs, Nat.add_assoc, Device.put_append hhead]
          exact (Device.put_again hzeros).trans (Device.put_append (length_archived hheader))
  · rw [if_neg hok] at h
    cases h

def appendAll : Fs → Device → Nat → List (Name × Byte) → Except Panic (Fs × Device × Nat)
  | s, dst, sector, [] => return (s, dst, sector)
  | s, dst, sector, (name, beyond) :: calls => do
    let (s, dst, sector) ← fsutilAppend s (some dst) sector name beyond
    appendAll s dst sector calls

lemma fsutilAppend_keeps :
    dst'.sectors = dst.sectors ∧ sector < sector' ∧ ∀ k, k < sector ∨ sector' < k → dst'.sector k = dst.sector k := by
  obtain ⟨len, header, bs, hheader, -, hbs, rfl, -, rfl⟩ := fsutilAppend_writes h
  have hdata : (header ++ blocked blockSectorSize bs ++ endMark beyond).length =
      blockSectorSize * (1 + blockCnt blockSectorSize len.toNat + 1) := by
    rw [List.length_append, length_archived hheader, hbs, length_endMark, Nat.mul_succ]
  refine ⟨rfl, by rw [archiveEnd]; omega, fun k hk => ?_⟩
  rcases hk with hk | hk
  · exact Device.sector_put_of_lt hk
  · rw [archiveEnd] at hk
    exact Device.sector_put_of_le hdata (by omega)

lemma fsutilAppend_marks : dst'.sector sector' = endMark beyond := by
  obtain ⟨len, header, bs, hheader, -, hbs, rfl, -, rfl⟩ := fsutilAppend_writes h
  rw [← Device.put_append (length_archived hheader), archiveEnd, hbs]
  exact Device.sector_put (length_endMark beyond)

end

lemma appendAll_keeps {calls : List (Name × Byte)} (h : appendAll s dst sector calls = .ok (t, dst', sector')) :
    dst'.sectors = dst.sectors ∧ sector ≤ sector' ∧ ∀ k, sector' < k → dst'.sector k = dst.sector k := by
  induction calls generalizing s dst sector with
  | nil =>
    cases h
    exact ⟨rfl, le_rfl, fun _ _ => rfl⟩
  | cons call calls ih =>
    obtain ⟨⟨s₁, dst₁, sector₁⟩, hcall, h⟩ := bind_eq_ok.mp h
    obtain ⟨hsectors, hlt, hkeep⟩ := fsutilAppend_keeps hcall
    obtain ⟨hsectors', hle, hkeep'⟩ := ih h
    refine ⟨hsectors'.trans hsectors, by omega, fun k hk => ?_⟩
    exact (hkeep' k hk).trans (hkeep k (.inr (by omega)))

lemma endMark_eq_zeros : endMark beyond = zeros blockSectorSize ↔ beyond = 0 := by
  have hz : zeros blockSectorSize = zeros (blockSectorSize - 1) ++ [0] := List.replicate_succ'
  rw [endMark, hz, List.append_cancel_left_eq, List.singleton_inj]

def Device.EndsArchive (v : Device) (idx : Nat) : Prop :=
  v.sector idx = zeros blockSectorSize ∧ v.sector (idx + 1) = zeros blockSectorSize

instance (v : Device) (idx : Nat) : Decidable (v.EndsArchive idx) :=
  inferInstanceAs (Decidable (_ ∧ _))

theorem append_ends_archive {s s₁ s₂ : Fs} {dst dst₁ dst₂ : Device} {calls : List (Name × Byte)}
    {sector₁ sector₂ : Nat} {name : Name} {beyond : Byte} {len : Int}
    (hcalls : appendAll s dst 0 calls = .ok (s₁, dst₁, sector₁)) (hlen : lengthOf s₁ name = .ok len)
    (hcall : fsutilAppend s₁ (some dst₁) sector₁ name beyond = .ok (s₂, dst₂, sector₂)) :
    sector₂ = archiveEnd sector₁ len.toNat ∧ (∀ k < sector₁, dst₂.sector k = dst₁.sector k) ∧
      (dst₂.EndsArchive (archiveEnd sector₁ len.toNat) ↔
        beyond = 0 ∧ dst.sector (archiveEnd sector₁ len.toNat + 1) = zeros blockSectorSize) := by
  obtain ⟨len', -, -, -, hlen', -, rfl, -, -⟩ := fsutilAppend_writes hcall
  obtain rfl : len = len' := Except.ok.inj (hlen.symm.trans hlen')
  obtain ⟨-, -, hkeep⟩ := fsutilAppend_keeps hcall
  obtain ⟨-, hle, hkeep'⟩ := appendAll_keeps hcalls
  refine ⟨rfl, fun k hk => hkeep k (.inl hk), ?_⟩
  have hnext : dst₂.sector (archiveEnd sector₁ len.toNat + 1) = dst.sector (archiveEnd sector₁ len.toNat + 1) :=
    (hkeep _ (.inr (Nat.lt_succ_self _))).trans (hkeep' _ (by rw [archiveEnd]; omega))
  rw [Device.EndsArchive, fsutilAppend_marks hcall, endMark_eq_zeros, hnext]

/-- The first sectors hold other data. -/
def scratchOf (used : Nat) : Device where
  disk a := if a < blockSectorSize * used then 1 else 0
  sectors := 8
  sectors_lt := by decide

def filledRun : Option Machine :=
  smallRun [.create nameA ⟨3, by decide⟩, .openNamed nameA, .write 7 [1, 2, 3] ⟨3, by decide⟩]

theorem append_ends_archive_second : ∃ m s dst t dst', filledRun = some m ∧
    appendAll m.fs (scratchOf 5) 0 [(nameA, 0)] = .ok (s, dst, 2) ∧
      fsutilAppend s (some dst) 2 nameA 0 = .ok (t, dst', 4) ∧ dst'.EndsArchive 4 := by
  have hrun : (filledRun.any fun m => (appendAll m.fs (scratchOf 5) 0 [(nameA, 0)]).toOption.any fun r =>
      r.2.2 = 2 && (fsutilAppend r.1 (some r.2.1) 2 nameA 0).toOption.any fun r => r.2.2 = 4) = true := by
    decide +kernel
  obtain ⟨m, hm, hrun⟩ := (Option.any_eq_true _ _).mp hrun
  obtain ⟨⟨s, dst, sector⟩, hfirst, hrun⟩ := exists_of_any hrun
  simp only [Bool.and_eq_true, decide_eq_true_eq] at hrun
  obtain ⟨rfl, hrun⟩ := hrun
  obtain ⟨⟨t, dst', sector⟩, hcall, hsector⟩ := exists_of_any hrun
  obtain rfl : sector = 4 := of_decide_eq_true hsector
  obtain ⟨len, -, -, -, hlen, -⟩ := fsutilAppend_writes hcall
  obtain ⟨hend, -, hmark⟩ := append_ends_archive hfirst hlen hcall
  have hfree : (scratchOf 5).sector 5 = zeros blockSectorSize := by decide +kernel
  rw [← hend] at hmark
  exact ⟨m, s, dst, t, dst', hm, hfirst, hcall, hmark.mpr ⟨rfl, hfree⟩⟩

theorem append_leaves_stale_sector : ∃ m, system.Reachable m ∧ ∃ t dst',
    fsutilAppend m.fs (some (scratchOf 8)) 0 nameA 0 = .ok (t, dst', 2) ∧ ¬ dst'.EndsArchive 2 := by
  have hrun : (filledRun.any fun m => (fsutilAppend m.fs (some (scratchOf 8)) 0 nameA 0).toOption.any fun r =>
      r.2.2 = 2) = true := by
    decide +kernel
  obtain ⟨m, hm, hrun⟩ := (Option.any_eq_true _ _).mp hrun
  obtain ⟨⟨t, dst', sector⟩, hcall, hsector⟩ := exists_of_any hrun
  obtain rfl : sector = 2 := of_decide_eq_true hsector
  obtain ⟨-, -, hkeep⟩ := fsutilAppend_keeps hcall
  have hstale : (scratchOf 8).sector 3 ≠ zeros blockSectorSize := by decide +kernel
  refine ⟨m, (smallRun_reachable hm).reachable, t, dst', hcall, fun hend => hstale ?_⟩
  exact (hkeep 3 (.inr (by decide))).symm.trans hend.2

end Pintos.Filesys
