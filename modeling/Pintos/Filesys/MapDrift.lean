import Pintos.Filesys.Contents

/-! When the free map in memory and its file part: writes of the map that stop at a refused bounce buffer. -/

namespace Pintos.Filesys

open Pintos.Foundation Pintos.Kernel

section Words

variable (l k : List (BitVec 32)) (j : Nat)

lemma length_words : (l.flatMap fun w => word w.toNat).length = 4 * l.length := by
  rw [List.length_flatMap]
  simp [Nat.mul_comm]

lemma take_words : (l.flatMap fun w => word w.toNat).take (4 * j) = (l.take j).flatMap fun w => word w.toNat := by
  induction l generalizing j with
  | nil => simp
  | cons w l ih =>
    cases j with
    | zero => simp
    | succ j =>
      rw [List.flatMap_cons, Nat.mul_succ, Nat.add_comm, List.take_append, length_word, Nat.add_sub_cancel_left,
        ih, List.take_of_length_le (by rw [length_word]; omega), List.take_succ_cons, List.flatMap_cons]

lemma drop_words : (l.flatMap fun w => word w.toNat).drop (4 * j) = (l.drop j).flatMap fun w => word w.toNat := by
  induction l generalizing j with
  | nil => simp
  | cons w l ih =>
    cases j with
    | zero => simp
    | succ j => rw [List.flatMap_cons, Nat.mul_succ, Nat.add_comm, ← List.drop_drop,
        List.drop_left' (length_word _), ih, List.drop_succ_cons]

variable {l k}

lemma words_injective (h : (l.flatMap fun w => word w.toNat) = k.flatMap fun w => word w.toNat) : l = k := by
  have hlen : l.length = k.length := by
    have := congrArg List.length h
    rw [length_words, length_words] at this
    omega
  refine List.ext_getElem hlen fun i hl hk => BitVec.eq_of_toNat_eq ?_
  rw [← wordOf_drop_words l hl, ← wordOf_drop_words k hk, h]

end Words

def spliceMap (b c : Bitmap) (h : c.bitCnt = b.bitCnt) (j : Nat) : Bitmap :=
  { b with
    bits := (b.bits.toList.take j ++ c.bits.toList.drop j).toArray
    size_bits := by
      have hc := c.size_bits
      have hb := b.size_bits
      rw [h] at hc
      simp only [List.size_toArray, List.length_append, List.length_take, List.length_drop, Array.length_toList]
      omega }

section Splices

variable {b c : Bitmap} (h : c.bitCnt = b.bitCnt) (j : Nat)

lemma bitmapBytes_spliceMap :
    bitmapBytes (spliceMap b c h j) = (bitmapBytes b).take (4 * j) ++ (bitmapBytes c).drop (4 * j) := by
  rw [bitmapBytes, bitmapBytes, bitmapBytes, take_words, drop_words, ← List.flatMap_append]
  rfl

lemma bit_spliceMap {k : Nat} (hk : k < b.bitCnt) :
    (spliceMap b c h j).bit k = if k < 32 * j then b.bit k else c.bit k := by
  have hb := elem_lt b hk
  have hc := elem_lt c (h.symm ▸ hk)
  simp only [Bitmap.bit, spliceMap, Array.getD_eq_getD_getElem?, List.getElem?_toArray, List.getElem?_append,
    List.length_take, Array.length_toList]
  by_cases hj : k < 32 * j
  · rw [if_pos hj, if_pos (by omega), List.getElem?_take_of_lt (by omega), Array.getElem?_toList]
  · rw [if_neg hj, if_neg (by omega), List.getElem?_drop, Array.getElem?_toList,
      show j + (k / 32 - min j b.bits.size) = k / 32 by omega]

lemma bitmapBytes_injective (hbytes : bitmapBytes b = bitmapBytes c) (k : Nat) : c.bit k = b.bit k := by
  have hbits : b.bits = c.bits := Array.toList_inj.mp (words_injective hbytes)
  rw [Bitmap.bit, Bitmap.bit, hbits]

end Splices

def Fs.Flushes (s : Fs) : Prop := byteCnt s.sectors % 512 = 0 ∨ (malloc s.mallocs).1 = true

def Fs.blockedBits (s : Fs) : Nat := 4096 * (byteCnt s.sectors / 512)

instance (s : Fs) : Decidable s.Flushes := inferInstanceAs (Decidable (_ ∨ _))

def Fs.flushed (s : Fs) : Nat :=
  if s.Flushes then byteCnt s.sectors else 512 * (byteCnt s.sectors / 512)

section Flushing

variable {s : Fs} {fm : Obj}

lemma Mapped.bitmapWrite_flushed (h : Mapped s fm) {f : Nat} (hf : s.freeMapFile = some f) :
    ∃ ms, bitmapWrite s f = .ok (decide s.Flushes,
      { s with disk := s.disk.write fm.base ((bitmapBytes s.freeMap).take s.flushed), mallocs := ms }) := by
  obtain ⟨n, ms, hrun, ht⟩ := h.bitmapWrite_eq hf
  rw [h.length] at hrun ht
  have hflushes : n = byteCnt s.sectors ↔ s.Flushes := by
    have hb : ¬ Bounced 0 (byteCnt s.sectors) ↔ byteCnt s.sectors % 512 = 0 := by
      rw [Bounced]
      omega
    rw [ht.whole, hb, Fs.Flushes]
    simp
  have hn : n = s.flushed := by
    rw [Fs.flushed]
    by_cases hg : s.Flushes
    · rw [if_pos hg, hflushes.mpr hg]
    · rw [if_neg hg, ht.short.resolve_left (mt hflushes.mp hg), if_pos (Nat.zero_mod _)]
  refine ⟨ms, ?_⟩
  rw [hrun, decide_eq_decide.mpr hflushes, hn]

lemma Fs.flushed_eq (s : Fs) : s.flushed = 4 * (s.flushed / 4) := by
  have hb := byteCnt_eq s.sectors_lt
  rw [flushed]
  split <;> omega

lemma Fs.lt_flushed {k : Nat} (hk : k < s.sectors) :
    k < 32 * (s.flushed / 4) ↔ s.Flushes ∨ k < s.blockedBits := by
  have hb := byteCnt_eq s.sectors_lt
  rw [flushed, blockedBits]
  by_cases hg : s.Flushes
  · rw [if_pos hg, iff_true_intro (Or.inl hg), iff_true]
    omega
  · rw [if_neg hg, or_iff_right hg]
    omega

lemma Mapped.synced_iff (h : Mapped s fm) (hs : s.Synced fm) {c d : Bitmap}
    (hc : c.bitCnt = s.freeMap.bitCnt) (hd : d.bitCnt = s.freeMap.bitCnt) (ms : List Bool) :
    Fs.Synced { s with
        freeMap := d
        disk := s.disk.write fm.base ((bitmapBytes c).take s.flushed)
        mallocs := ms } fm ↔
      ∀ k < s.sectors, d.bit k = if s.Flushes ∨ k < s.blockedBits then c.bit k else s.freeMap.bit k := by
  obtain ⟨c₀, ⟨hcnt, hsame⟩, hcontent⟩ := hs
  have hcc : c₀.bitCnt = c.bitCnt := hcnt.trans hc.symm
  have hsectors : c.bitCnt = s.sectors := hc.trans h.bitCnt
  have hlen : ((bitmapBytes c).take s.flushed).length = s.flushed := by
    rw [List.length_take, length_bitmapBytes, hsectors, Fs.flushed]
    split <;> omega
  have hle : s.flushed ≤ fm.length := by
    rw [h.length, Fs.flushed]
    split <;> omega
  have hdisk : (s.disk.write fm.base ((bitmapBytes c).take s.flushed)).read fm.base fm.length =
      bitmapBytes (spliceMap c c₀ hcc (s.flushed / 4)) := by
    have hw := s.disk.read_write_within (a := fm.base) (k := 0) (n := fm.length)
      (show 0 + ((bitmapBytes c).take s.flushed).length ≤ fm.length by omega)
    rw [Nat.add_zero] at hw
    rw [hw, show s.disk.read fm.base fm.length = bitmapBytes c₀ from hcontent, overlay, List.take_zero,
      List.nil_append, Nat.zero_add, hlen, bitmapBytes_spliceMap, ← s.flushed_eq]
  have hbit : ∀ k < s.sectors, (spliceMap c c₀ hcc (s.flushed / 4)).bit k =
      if s.Flushes ∨ k < s.blockedBits then c.bit k else s.freeMap.bit k := by
    intro k hk
    rw [bit_spliceMap hcc _ (hsectors.symm ▸ hk), hsame k (h.bitCnt.symm ▸ hk)]
    simp only [Fs.lt_flushed hk]
  constructor
  · rintro ⟨e, ⟨-, he⟩, hbytes⟩ k hk
    rw [← he k (by rw [hd, h.bitCnt]; exact hk), ← hbit k hk]
    exact bitmapBytes_injective (hdisk.symm.trans hbytes) k
  · intro hall
    refine ⟨spliceMap c c₀ hcc (s.flushed / 4), ⟨hc.trans hd.symm, fun k hk => ?_⟩, hdisk⟩
    have hk' : k < s.sectors := by
      rw [← h.bitCnt, ← hd]
      exact hk
    rw [hbit k hk', hall k hk']

end Flushing

lemma containsLoop_within {b : Bitmap} {start : Nat} {value : Bool} {n i : Nat} (hi : start + i ≤ b.bitCnt)
    (h : containsLoop b start value n i = .ok false) : start + i + n ≤ b.bitCnt := by
  have hb := b.bitCnt_lt
  induction n generalizing i with
  | zero => exact hi
  | succ n ih =>
    rw [containsLoop, wrap_of_lt (by omega)] at h
    obtain ⟨r, htest, h⟩ := bind_eq_ok.mp h
    have hlt : start + i < b.bitCnt := by
      by_contra hn
      rw [bitmapTest, assertThat_neg hn, bind_error] at htest
      cases htest
    by_cases hr : (r == value) = true
    · rw [if_pos hr] at h
      cases h
    · rw [if_neg hr] at h
      have := ih (by omega) h
      omega

variable {cnt : Nat}

lemma fits_of_freeMapRelease {s t : Fs} {sector : Nat} (h : freeMapRelease s sector cnt = .ok t) :
    s.freeMap.Fits true cnt sector := by
  obtain ⟨all, hall, h⟩ := bind_eq_ok.mp h
  obtain ⟨⟨⟩, hassert, -⟩ := bind_eq_ok.mp h
  obtain rfl : all = true := by
    by_contra hn
    rw [assertThat_neg hn] at hassert
    cases hassert
  obtain ⟨r, hr, hnot⟩ := bind_eq_ok.mp hall
  obtain rfl : r = false := by
    cases r with
    | false => rfl
    | true => cases hnot
  have hstart : sector ≤ s.freeMap.bitCnt := by
    by_contra hn
    rw [bitmapContains, assertThat_neg hn, bind_error] at hr
    cases hr
  rw [bitmapContains, assertThat_pos hstart, bind_ok] at hr
  obtain ⟨-, -, hloop⟩ := bind_eq_ok.mp hr
  have hend := containsLoop_within (i := 0) hstart hloop
  obtain ⟨r, hr', hiff⟩ := bitmapAll_eq s.freeMap sector cnt hend
  rw [hall] at hr'
  cases hr'
  exact hiff.mp rfl

lemma freeMapAllocate_written {s u : Fs} {idx f : Nat} {c : Bitmap} {ok : Bool}
    (hscan : bitmapScanAndFlip s.freeMap 0 cnt false = .ok (idx, c)) (he : idx ≠ bitmapError)
    (hf : s.freeMapFile = some f) (hw : bitmapWrite { s with freeMap := c } f = .ok (ok, u)) :
    freeMapAllocate s cnt = if ok then .ok (some idx, u)
      else (bitmapSetMultiple u.freeMap idx cnt false).bind fun d => .ok (none, { u with freeMap := d }) := by
  rw [freeMapAllocate, hscan, bind_ok]
  simp only [if_neg he]
  split
  · next hn => cases hf.symm.trans hn
  · next g hg =>
    obtain rfl : f = g := Option.some.inj (hf.symm.trans hg)
    rw [hw, bind_ok]
    rfl

lemma freeMapRelease_written {s u : Fs} {sector f : Nat} {c : Bitmap} {ok : Bool}
    (hu : s.freeMap.Fits true cnt sector) (hc : bitmapSetMultiple s.freeMap sector cnt false = .ok c)
    (hf : s.freeMapFile = some f) (hw : bitmapWrite { s with freeMap := c } f = .ok (ok, u)) :
    freeMapRelease s sector cnt = .ok u := by
  obtain ⟨r, hr, hiff⟩ := bitmapAll_eq s.freeMap sector cnt hu.1
  rw [freeMapRelease, hr, bind_ok, assertThat_pos (hiff.mpr hu), bind_ok, hc, bind_ok]
  simp only
  split
  · next hn => cases hf.symm.trans hn
  · next g hg =>
    obtain rfl : f = g := Option.some.inj (hf.symm.trans hg)
    rw [hw]
    rfl

section Drift

variable {s : Fs} {fm : Obj} (h : Mapped s fm) (hf : s.freeMapFile ≠ none) (hs : s.Synced fm)

include h hf hs

lemma freeMapAllocate_synced_iff (cnt : Nat) :
    ∃ r t, freeMapAllocate s cnt = .ok (r, t) ∧
      (t.Synced fm ↔ s.Flushes ∨ cnt = 0 ∨ ∀ x < s.blockedBits, ¬ s.freeMap.Fits false cnt x) := by
  obtain ⟨f, hfile⟩ := Option.ne_none_iff_exists'.mp hf
  obtain ⟨idx, c, hrun, hscan, -, hset⟩ := bitmapScanAndFlip_eq s.freeMap cnt false (Nat.zero_le _)
  by_cases he : idx = bitmapError
  · have hnone := scans_error hscan he
    refine ⟨none, s, ?_, iff_of_true hs (.inr (.inr fun x _ => hnone x))⟩
    rw [freeMapAllocate, hrun, bind_ok]
    simp only [if_pos he]
    rfl
  obtain ⟨-, -, hfits, hleast⟩ := hscan.resolve_left fun hh => he hh.1
  have hsets := hset he
  obtain ⟨ms, hw⟩ := (h.with_map hsets.1 s.disk s.mallocs).bitmapWrite_flushed hfile
  rw [freeMapAllocate_written hrun he hfile hw]
  by_cases hg : s.Flushes
  · rw [if_pos (decide_eq_true (show Fs.Flushes { s with freeMap := c } from hg))]
    refine ⟨some idx, _, rfl, iff_of_true ?_ (.inl hg)⟩
    exact (h.synced_iff hs hsets.1 hsets.1 ms).mpr fun k _ => by rw [if_pos (.inl hg)]
  rw [if_neg (by simpa using show ¬ Fs.Flushes { s with freeMap := c } from hg)]
  obtain ⟨d, hd, hu⟩ := bitmapSetMultiple_eq c idx cnt false (hsets.1.symm ▸ hfits.1)
  have hsame := sameBits_of_undone hfits hsets hu
  rw [hd]
  refine ⟨none, _, rfl, (h.synced_iff hs hsets.1 hsame.1 ms).trans ?_⟩
  rw [or_iff_right hg]
  -- memory is as before, so the file agrees exactly if the write stopped before the first sector taken
  constructor
  · intro hall
    by_contra hn
    simp only [not_or, not_forall, not_not] at hn
    obtain ⟨hcnt, x, hx, hfx⟩ := hn
    have hle : idx ≤ x := by
      by_contra hlt
      exact hleast x (Nat.zero_le x) (by omega) hfx
    have hidx : idx < s.freeMap.bitCnt := by
      have := hfits.1
      omega
    have hbit := hall idx (h.bitCnt ▸ hidx)
    rw [if_pos (.inr (by omega)), hsame.2 idx hidx, hsets.2 idx hidx, if_pos (by omega)] at hbit
    have hfree := hfits.2 0 (by omega)
    rw [Nat.add_zero, hbit] at hfree
    cases hfree
  · intro hsafe k hk
    have hk' : k < s.freeMap.bitCnt := h.bitCnt.symm ▸ hk
    rw [hsame.2 k hk']
    split
    · next hlow =>
      rw [hsets.2 k hk', if_neg]
      rintro ⟨hle, hlt⟩
      have hlow' := hlow.resolve_left hg
      exact (hsafe.resolve_left (by omega)) idx (by omega) hfits
    · rfl

lemma freeMapRelease_synced_iff {sector cnt : Nat} (hu : s.freeMap.Fits true cnt sector) :
    ∃ t, freeMapRelease s sector cnt = .ok t ∧
      (t.Synced fm ↔ s.Flushes ∨ cnt = 0 ∨ sector + cnt ≤ s.blockedBits) := by
  obtain ⟨f, hfile⟩ := Option.ne_none_iff_exists'.mp hf
  obtain ⟨c, hc, hset⟩ := bitmapSetMultiple_eq s.freeMap sector cnt false hu.1
  obtain ⟨ms, hw⟩ := (h.with_map hset.1 s.disk s.mallocs).bitmapWrite_flushed hfile
  refine ⟨_, freeMapRelease_written hu hc hfile hw, (h.synced_iff hs hset.1 hset.1 ms).trans ?_⟩
  constructor
  · intro hall
    by_contra hn
    simp only [not_or] at hn
    obtain ⟨hg, hcnt, hlast⟩ := hn
    have hk : sector + (cnt - 1) < s.freeMap.bitCnt := by
      have := hu.1
      omega
    have hbit := hall (sector + (cnt - 1)) (h.bitCnt ▸ hk)
    rw [if_neg (by rw [or_iff_right hg]; omega), hset.2 _ hk, if_pos (by omega), hu.2 _ (by omega)] at hbit
    cases hbit
  · intro hsafe k hk
    split
    · rfl
    · next hhigh =>
      rw [not_or] at hhigh
      have hk' : k < s.freeMap.bitCnt := h.bitCnt.symm ▸ hk
      rw [hset.2 k hk', if_neg]
      have := hsafe.resolve_left hhigh.1
      omega

end Drift

def smallMap : Obj := ⟨freeMapSector, 2, 4, by decide⟩

lemma exists_synced (ms : List Bool) : ∃ s : Fs, s.mallocs = ms ∧ s.sectors = 12 ∧ Mapped s smallMap ∧
    s.freeMapFile ≠ none ∧ s.Synced smallMap ∧ (4, ⟨5, 600, inodeMagic⟩) ∈ s.owners ∧ s.freeMap.Fits true 2 5 := by
  have hrun : ((smallRun [.create nameA ⟨600, by decide⟩]).map fun m => decide (m.fs.sectors = 12 ∧
      m.fs.freeMap.bitCnt = 12 ∧ m.fs.content smallMap = bitmapBytes m.fs.freeMap ∧
      (4, ⟨5, 600, inodeMagic⟩) ∈ m.fs.owners ∧ (∀ j < 2, m.fs.freeMap.bit (5 + j) = true) ∧
      ((m.fs.freeMapFile.bind m.fs.file).bind fun x => m.fs.inode x.inode).map (fun i => (i.data, i.denyWriteCnt)) =
        some (smallMap.data, 0))) = some true := by
    decide +kernel
  obtain ⟨m, -, h⟩ := Option.map_eq_some_iff.mp hrun
  obtain ⟨hsectors, hcnt, hsync, hfile, hbits, hmap⟩ := of_decide_eq_true h
  refine ⟨{ m.fs with mallocs := ms }, rfl, hsectors, ⟨hcnt.trans hsectors.symm, ?_, ?_, fun f hf => ?_⟩, fun hn => ?_,
    .of_eq hsync, hfile, ?_, hbits⟩
  · rw [hsectors]
    decide
  · rw [hsectors]
    decide
  · rw [show m.fs.freeMapFile = some f from hf] at hmap
    obtain ⟨i, hi, hdata⟩ := Option.map_eq_some_iff.mp hmap
    obtain ⟨x, hx, hi⟩ := Option.bind_eq_some_iff.mp hi
    exact ⟨x, i, hx, hi, Prod.mk.inj hdata⟩
  · rw [show m.fs.freeMapFile = none from hn] at hmap
    cases hmap
  · rw [hcnt]
    decide

theorem free_map_calls_keep_file {s : Fs} {fm : Obj} (h : Mapped s fm) (hf : s.freeMapFile ≠ none)
    (hs : s.Synced fm) :
    (∀ cnt, ∃ r t, freeMapAllocate s cnt = .ok (r, t) ∧
      (t.Synced fm ↔ s.Flushes ∨ cnt = 0 ∨ ∀ x < s.blockedBits, ¬ s.freeMap.Fits false cnt x)) ∧
    ∀ sector cnt, ((∃ t, freeMapRelease s sector cnt = .ok t) ↔ s.freeMap.Fits true cnt sector) ∧
      ∀ t, freeMapRelease s sector cnt = .ok t →
        (t.Synced fm ↔ s.Flushes ∨ cnt = 0 ∨ sector + cnt ≤ s.blockedBits) := by
  refine ⟨freeMapAllocate_synced_iff h hf hs, fun sector cnt => ⟨⟨?_, ?_⟩, ?_⟩⟩
  · rintro ⟨t, ht⟩
    exact fits_of_freeMapRelease ht
  · intro hu
    obtain ⟨t, ht, -⟩ := freeMapRelease_synced_iff h hf hs hu
    exact ⟨t, ht⟩
  · intro t ht
    obtain ⟨t', ht', hiff⟩ := freeMapRelease_synced_iff h hf hs (fits_of_freeMapRelease ht)
    cases ht.symm.trans ht'
    exact hiff

theorem free_map_calls_keep_file_released : ∃ s t : Fs, Mapped s smallMap ∧ s.freeMapFile ≠ none ∧
    s.Synced smallMap ∧ (4, ⟨5, 600, inodeMagic⟩) ∈ s.owners ∧ freeMapRelease s 5 2 = .ok t ∧ t.Synced smallMap := by
  obtain ⟨s, hms, -, hmap, hf, hs, hfile, hu⟩ := exists_synced []
  obtain ⟨hreturns, hiff⟩ := (free_map_calls_keep_file hmap hf hs).2 5 2
  obtain ⟨t, ht⟩ := hreturns.mpr hu
  refine ⟨s, t, hmap, hf, hs, hfile, ht, (hiff t ht).mpr (.inl (.inr ?_))⟩
  rw [hms]
  rfl

theorem free_map_release_drifts : ∃ s t : Fs, Mapped s smallMap ∧ s.freeMapFile ≠ none ∧ s.Synced smallMap ∧
    (4, ⟨5, 600, inodeMagic⟩) ∈ s.owners ∧ freeMapRelease s 5 2 = .ok t ∧ ¬ t.Synced smallMap := by
  obtain ⟨s, hms, hsectors, hmap, hf, hs, hfile, hu⟩ := exists_synced [false]
  obtain ⟨t, ht, hiff⟩ := freeMapRelease_synced_iff hmap hf hs hu
  refine ⟨s, t, hmap, hf, hs, hfile, ht, fun hsync => ?_⟩
  have hcnt : byteCnt 12 = 4 := by decide
  have hsafe := hiff.mp hsync
  rw [Fs.Flushes, Fs.blockedBits, hsectors, hms, hcnt] at hsafe
  revert hsafe
  decide

end Pintos.Filesys
