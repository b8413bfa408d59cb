import Pintos.Filesys.Handles

/-! Reading the free map back from its file, and what `filesys_init` makes of a device. -/

namespace Pintos.Filesys

open Pintos.Foundation Pintos.Kernel

variable {objs : List Obj}

lemma wordOf_drop_words (l : List (BitVec 32)) {i : Nat} (h : i < l.length) :
    wordOf ((l.flatMap fun w => word w.toNat).drop (4 * i)) = l[i].toNat := by
  induction l generalizing i with
  | nil => cases h
  | cons w l ih =>
    rw [List.flatMap_cons]
    cases i with
    | zero => exact wordOf_word_append w.isLt _
    | succ i =>
      rw [Nat.mul_succ, Nat.add_comm, ← List.drop_drop, List.drop_left' (length_word _),
        ih (by simpa using h), List.getElem_cons_succ]

variable {s u : Fs} {b : Books} {c : Bitmap} {k : Nat}

lemma bit_bitmapOfBytes {b : Bitmap} (h : c.bitCnt = b.bitCnt) (hk : k < b.bitCnt) :
    (bitmapOfBytes b (bitmapBytes c)).bit k = c.bit k := by
  have hb := elem_lt (bitmapOfBytes b (bitmapBytes c)) hk
  have hc := elem_lt c (h.symm ▸ hk)
  rw [Bitmap.bit, Bitmap.bit, Array.getD_eq_getD_getElem?, Array.getD_eq_getD_getElem?,
    Array.getElem?_eq_getElem hb, Array.getElem?_eq_getElem hc]
  simp only [bitmapOfBytes, Array.getElem_ofFn, Option.getD_some]
  rw [bitmapBytes, wordOf_drop_words c.bits.toList (by simpa using hc), BitVec.ofNat_toNat,
    BitVec.setWidth_eq, Array.getElem_toList]

lemma getLsbD_lastMask {n : Nat} (h : k < n) (hk : n / 32 = k / 32) :
    (lastMask n).getLsbD (k % 32) = true := by
  have hall : ∀ r < 32, ∀ j < r, (1#32 <<< r - 1#32).getLsbD j = true := by decide
  rw [lastMask, elemBits]
  by_cases hn : n % 32 = 0
  · omega
  · rw [if_pos hn]
    exact hall _ (Nat.mod_lt _ (by omega)) _ (by omega)

lemma bit_bitmapMaskLast (b : Bitmap) (hk : k < b.bitCnt) :
    (bitmapMaskLast b).bit k = b.bit k := by
  have hi : elemCnt b.bitCnt - 1 = elemIdx (32 * (elemCnt b.bitCnt - 1)) := by
    rw [elemIdx, elemBits]
    omega
  change ((b.bits.modify (elemCnt b.bitCnt - 1) _).getD (k / 32) 0).getLsbD (k % 32) = _
  rw [hi, bit_modify b _ hk]
  split
  · next he =>
    rw [elemCnt_eq] at he
    rw [BitVec.getLsbD_and]
    by_cases hn : b.bitCnt / 32 = k / 32
    · rw [getLsbD_lastMask hk hn, Bool.and_true]
      rfl
    · have hz : b.bitCnt % 32 = 0 := by omega
      rw [lastMask, elemBits, if_neg (by omega), BitVec.getLsbD_allOnes,
        decide_eq_true (Nat.mod_lt _ (by omega)), Bool.and_true]
      rfl
  · rfl

lemma overlay_all {xs bs : List Byte} (h : bs.length = xs.length) : overlay xs 0 bs = bs := by
  rw [overlay, List.take_zero, List.nil_append, List.drop_eq_nil_of_le (by omega), List.append_nil]

lemma Mapped.bitmapRead_eq {fm : Obj} (h : Mapped s fm) {f : Nat} (hf : s.freeMapFile = some f)
    (hpos : 0 < s.sectors) (hc : c.bitCnt = s.sectors) (hdisk : s.content fm = bitmapBytes c) :
    (∃ d ms, bitmapRead s f = .ok (true, { s with freeMap := d, mallocs := ms }) ∧ SameBits c d ∧
      (s.mallocs = [] → ms = [])) ∨ (s.mallocs ≠ [] ∧ ∃ t, bitmapRead s f = .ok (false, t)) := by
  obtain ⟨x, i, hx, hi, hd, _⟩ := h.file f hf
  obtain ⟨n, ms, hrun, ht⟩ := inodeReadAt_eq h.placed hi hd (byteCnt s.freeMap.bitCnt) 0
  have hlen : min (byteCnt s.freeMap.bitCnt : Int).toNat (fm.length - 0) = byteCnt s.freeMap.bitCnt := by
    rw [h.length, h.bitCnt]
    simp
  rw [hlen] at ht
  have hread : fileReadAt s f (byteCnt s.freeMap.bitCnt) 0 =
      .ok (s.disk.read (fm.base + 0) n, { s with mallocs := ms }) := by
    rw [fileReadAt, fileAt_eq hx, bind_ok, hrun]
  simp only [bitmapRead, if_pos (show 0 < s.freeMap.bitCnt from h.bitCnt.symm ▸ hpos), hread, bind_ok,
    Memory.length_read]
  by_cases hn : n = byteCnt s.freeMap.bitCnt
  · left
    have hbytes : s.disk.read (fm.base + 0) n = bitmapBytes c := by
      rw [hn, h.bitCnt, ← h.length]
      exact hdisk
    have hover : overlay (bitmapBytes s.freeMap) 0 (bitmapBytes c) = bitmapBytes c := by
      apply overlay_all
      rw [length_bitmapBytes, length_bitmapBytes, hc, h.bitCnt]
    have hcnt : c.bitCnt = s.freeMap.bitCnt := hc.trans h.bitCnt.symm
    refine ⟨bitmapMaskLast (bitmapOfBytes s.freeMap (bitmapBytes c)), ms, ?_, ⟨hcnt.symm, fun k hk => ?_⟩,
      fun hm => (ht.quiet hm).2⟩
    · rw [hbytes, hover, decide_eq_true hn]
      rfl
    · rw [bit_bitmapMaskLast _ (hcnt ▸ hk), bit_bitmapOfBytes hcnt (hcnt ▸ hk)]
  · right
    refine ⟨fun hm => hn (ht.quiet hm).1, ?_⟩
    rw [decide_eq_false hn]
    exact ⟨_, rfl⟩

structure Idle (s : Fs) : Prop where
  openInodes : s.openInodes = []
  inode : ∀ p, s.inode p = none
  file : ∀ f, s.file f = none

def Fs.mapOpened (s : Fs) (fm : Obj) (ms : List Bool) : Fs :=
  { Fs.setFile { s.opened ms fm with next := s.next + 2 } (s.next + 1)
      (some { inode := s.next, pos := 0, denyWrite := false }) with
    freeMapFile := some (s.next + 1) }

structure MapOnly (s : Fs) (fm : Obj) (f p : Nat) : Prop where
  openInodes : s.openInodes = [p]
  inode : ∀ q, s.inode q = if q = p then
    some { sector := fm.sector, openCnt := 1, removed := false, denyWriteCnt := 0, data := fm.data }
    else none
  file : ∀ g, s.file g = if g = f then some { inode := p, pos := 0, denyWrite := false } else none
  freeMapFile : s.freeMapFile = some f

namespace MapOnly

variable {fm : Obj} {f p : Nat}

lemma congr (h : MapOnly s fm f p) {t : Fs} (ht : SameTable s t) : MapOnly t fm f p where
  openInodes := ht.openInodes.trans h.openInodes
  inode := ht.inode ▸ h.inode
  file := ht.file ▸ h.file
  freeMapFile := ht.freeMapFile.trans h.freeMapFile

lemma mapped (h : MapOnly s fm f p) (hc : s.freeMap.bitCnt = s.sectors)
    (hl : fm.length = byteCnt s.sectors) (hp : fm.start + fm.cnt ≤ s.sectors) : Mapped s fm where
  bitCnt := hc
  length := hl
  placed := hp
  file g hg := by
    cases h.freeMapFile.symm.trans hg
    exact ⟨_, _, (h.file f).trans (if_pos rfl), (h.inode p).trans (if_pos rfl), rfl, rfl⟩

lemma freeMapClose_eq (h : MapOnly s fm f p) :
    ∃ t, freeMapClose s = .ok t ∧ Idle t ∧ SameDisk s t := by
  have hf : s.file f = some { inode := p, pos := 0, denyWrite := false } := (h.file f).trans (if_pos rfl)
  have hi := (h.inode p).trans (if_pos rfl)
  have hclose := Inv.inodeClose_kept hi (by rfl) rfl
  refine ⟨Fs.setFile (s.closed p) f none, ?_, ⟨?_, fun q => ?_, fun g => ?_⟩, rfl, rfl, rfl, rfl, id⟩
  · simp only [freeMapClose, h.freeMapFile, fileClose, fileAllowWrite, fileAt_eq hf, bind_ok, hclose,
      Bool.false_eq_true, if_false, pure_eq_ok]
  · change s.openInodes.erase p = []
    rw [h.openInodes, List.erase_cons_head]
  · change (s.closed p).inode q = none
    rw [closed_inode, h.inode]
    split
    · rfl
    · rfl
  · rw [Fs.setFile_file]
    split
    · rfl
    · next hg => exact (h.file g).trans (if_neg hg)

end MapOnly

namespace Idle

variable {fm : Obj}

lemma mapOnly (h : Idle s) (fm : Obj) (ms : List Bool) :
    MapOnly (s.mapOpened fm ms) fm (s.next + 1) s.next where
  openInodes := congrArg (s.next :: ·) h.openInodes
  inode q := by
    change (s.opened ms fm).inode q = _
    rw [Inv.opened_inode, h.inode]
  file g := by
    change (if g = s.next + 1 then _ else s.file g) = _
    rw [h.file]
  freeMapFile := rfl

lemma freeMapOpenFile_eq (h : Idle s) (hs : fm.sector = freeMapSector) (hlt : freeMapSector < s.sectors)
    (hd : InodeDisk.ofBytes (s.disk.read (512 * fm.sector) 512) = fm.data) :
    (∃ ms, freeMapOpenFile s = .ok (s.next + 1, s.mapOpened fm ms) ∧ (s.mallocs = [] → ms = [])) ∨
      (s.mallocs ≠ [] ∧ ∃ e, freeMapOpenFile s = .error e) := by
  have hfind : s.findOpen freeMapSector = none := by rw [Fs.findOpen, h.openInodes]; rfl
  rcases hm : malloc s.mallocs with ⟨_ | _, ms⟩
  · right
    refine ⟨fun he => ?_, .cantOpenFreeMap, ?_⟩
    · cases (malloc_quiet hm he).1
    · simp only [freeMapOpenFile, inodeOpen, hfind, hm, fileOpen]
      rfl
  have hopen : inodeOpen s freeMapSector = .ok (some s.next, s.opened ms fm) := by
    rw [hs] at hd
    simp only [inodeOpen, hfind, hm, if_true, blockRead, if_pos hlt, bind_ok, blockSectorSize, hd]
    rw [Fs.opened, hs]
    rfl
  rcases hm' : malloc ms with ⟨_ | _, ms'⟩
  · right
    refine ⟨fun he => ?_, ?_⟩
    · cases (malloc_quiet hm' (malloc_quiet hm he).2).1
    · have hms : (s.opened ms fm).mallocs = ms := rfl
      simp only [freeMapOpenFile, hopen, bind_ok, fileOpen, hms, hm']
      cases inodeClose { s.opened ms fm with mallocs := ms' } (some s.next) with
      | error e => exact ⟨e, rfl⟩
      | ok t => exact ⟨.cantOpenFreeMap, rfl⟩
  · left
    refine ⟨ms', ?_, fun he => (malloc_quiet hm' (malloc_quiet hm he).2).2⟩
    have hms : (s.opened ms fm).mallocs = ms := rfl
    simp only [freeMapOpenFile, hopen, bind_ok, fileOpen, hms, hm']
    rfl

lemma table (h : Idle s) (objs : List Obj) : Table s objs [] where
  nodup := h.openInodes ▸ List.nodup_nil
  listed p := by simp [h.openInodes, h.inode p]
  fresh p _ := ⟨h.inode p, h.file p⟩
  backed p i hi := by simp [h.inode p] at hi
  counted p i hi := by simp [h.inode p] at hi
  writable p i hi := by simp [h.inode p] at hi
  inj p q i j hi := by simp [h.inode p] at hi
  live p hp := by cases hp

lemma mapOpened_table (h : Idle s) (hfm : fm ∈ objs) (ms : List Bool) :
    Table (s.mapOpened fm ms) objs [s.next] := by
  have ht : Table (s.opened ms fm) objs [s.next] := by
    refine (h.table objs).open_fresh hfm (fun p i hi => ?_) rfl (Inv.opened_inode s ms fm) rfl rfl rfl
    simp [h.inode p] at hi
  refine { ht with fresh := fun p hp => ?_ }
  have hp : s.next + 2 ≤ p := hp
  refine ⟨(ht.fresh p (by change s.next + 1 ≤ p; omega)).1, ?_⟩
  exact (if_neg (by omega)).trans (h.file p)

lemma freeMapOpen_eq (h : Idle s) (hs : fm.sector = freeMapSector) (hlt : freeMapSector < s.sectors)
    (hd : InodeDisk.ofBytes (s.disk.read (512 * fm.sector) 512) = fm.data)
    (hb : s.freeMap.bitCnt = s.sectors) (hl : fm.length = byteCnt s.sectors)
    (hp : fm.start + fm.cnt ≤ s.sectors) {c : Bitmap} (hc : c.bitCnt = s.sectors)
    (hdisk : s.content fm = bitmapBytes c) :
    (∃ d ms, freeMapOpen s = .ok { s.mapOpened fm ms with freeMap := d } ∧ SameBits c d ∧
      (s.mallocs = [] → ms = [])) ∨ (s.mallocs ≠ [] ∧ ∃ e, freeMapOpen s = .error e) := by
  rcases h.freeMapOpenFile_eq hs hlt hd with ⟨ms, hopen, hq⟩ | ⟨hne, e, hopen⟩
  · have hpos : 0 < (s.mapOpened fm ms).sectors := hlt
    rw [freeMapOpen, hopen, bind_ok]
    rcases ((h.mapOnly fm ms).mapped hb hl hp).bitmapRead_eq rfl hpos hc hdisk with
      ⟨d, ms', hread, hsame, hq'⟩ | ⟨hne, t, hread⟩
    · exact .inl ⟨d, ms', by simp only [hread]; rfl, hsame, fun hm => hq' (hq hm)⟩
    · exact .inr ⟨fun hm => hne (hq hm), .cantReadFreeMap, by simp only [hread]; rfl⟩
  · exact .inr ⟨hne, e, by rw [freeMapOpen, hopen]; rfl⟩

end Idle

def Books.mounted (b : Books) (next : Nat) : Books := { b with fmFile := next + 1, fmInode := next }

lemma SameBits.sound (h : Sound s objs) (hb : s.freeMap.bitCnt = s.sectors)
    (hc : SameBits s.freeMap c) : Sound { s with freeMap := c } objs :=
  h.step rfl (P := fun _ => False) (.refl _ _ _) (fun _ _ => id) fun x hx hu =>
    (hc.2 x (hb.symm ▸ (h.used x hx).1)).trans hu

lemma Live.of_idle {d : Bitmap} (ms : List Bool) (h : Idle s)
    (hl : b.fm.length = byteCnt s.sectors) (hx : Sound { s with freeMap := c } b.objs)
    (hc : c.bitCnt = s.sectors) (hcd : SameBits c d)
    (hnamed : ∀ k < rootEntries, entryInUse (s.slot b.root k) = true →
      ∃ o ∈ b.files, o.sector = entrySector (s.slot b.root k))
    (hdistinct : ∀ k < rootEntries, ∀ l < rootEntries, entryInUse (s.slot b.root k) = true →
      entryInUse (s.slot b.root l) = true →
      entrySector (s.slot b.root k) = entrySector (s.slot b.root l) → k = l) :
    Live { s.mapOpened b.fm ms with freeMap := d } (b.mounted s.next) [] where
  inv :=
    { bitCnt := hcd.1.trans hc
      fmLength := hl
      fmOpen := rfl
      fmHandle := ⟨_, if_pos rfl, rfl⟩
      fmBacked := ⟨_, if_pos rfl, b.fm_sector⟩
      sound := (hcd.sound hx hc).congr rfl rfl rfl
      table := (h.mapOpened_table b.fm_mem ms).congr rfl rfl rfl rfl
      names :=
        { named := hnamed
          distinct := hdistinct
          gone := fun p i hi hr => by
            have hi : (s.opened ms b.fm).inode p = some i := hi
            rw [Inv.opened_inode] at hi
            split at hi
            · cases hi
              cases hr
            · simp [h.inode p] at hi } }
  keys := List.nodup_nil
  fm := List.not_mem_nil
  file f p hm := by cases hm
  regular f p hm := by cases hm
  denied p i hi := by
    rw [(h.mapOnly b.fm ms).congr (.with_map _ d _ _) |>.inode p] at hi
    split at hi
    · cases hi
      rfl
    · cases hi

lemma freeMapInit_eq (s : Fs) (junk : Nat → BitVec 32) :
    (∃ c ms, freeMapInit s junk = .ok { s with freeMap := c, mallocs := ms } ∧ c.bitCnt = s.sectors ∧
      (∀ k < s.sectors, c.bit k = decide (k = freeMapSector ∨ k = rootDirSector)) ∧
      (s.mallocs = [] → ms = [])) ∨ (s.mallocs ≠ [] ∧ ∃ e, freeMapInit s junk = .error e) := by
  rcases hm : malloc s.mallocs with ⟨ok, ms⟩
  rcases hm' : (if ok then malloc ms else (false, ms)) with ⟨ok', ms'⟩
  have hq : s.mallocs = [] → ok' = true ∧ ms' = [] := by
    intro he
    obtain ⟨rfl, rfl⟩ := malloc_quiet hm he
    cases hm'
    exact ⟨rfl, rfl⟩
  simp only [freeMapInit, hm, hm']
  by_cases hok : ok' = true ∨ (ok = true ∧ s.sectors = 0)
  · left
    rw [if_pos hok]
    let b : Bitmap := ⟨s.sectors, Array.ofFn fun i : Fin (elemCnt s.sectors) => junk i, Array.size_ofFn,
      s.sectors_lt⟩
    obtain ⟨c, hc, hset⟩ := bitmapSetMultiple_eq b 0 s.sectors false (by simp [b])
    refine ⟨bitmapMark (bitmapMark c freeMapSector) rootDirSector, ms', ?_, hset.1, fun k hk => ?_,
      fun he => (hq he).2⟩
    · rw [bitmapSetAll, hc]
      rfl
    · have hk' : k < c.bitCnt := hset.1.symm ▸ hk
      have hz : c.bit k = false := (hset.2 k hk).trans (if_pos ⟨Nat.zero_le k, by omega⟩)
      rw [bit_mark (bitmapMark c freeMapSector) hk', bit_mark c hk', hz]
      by_cases h0 : k = freeMapSector <;> by_cases h1 : k = rootDirSector <;> simp [h0, h1]
  · right
    rw [if_neg hok]
    exact ⟨fun he => hok (.inl (hq he).1), _, rfl⟩

lemma freeMapAllocate_unfiled (hf : s.freeMapFile = none) {cnt start : Nat} {t : Fs}
    (h : freeMapAllocate s cnt = .ok (some start, t)) :
    ∃ c, t = { s with freeMap := c } ∧ s.freeMap.Fits false cnt start ∧
      s.freeMap.Sets c start cnt true ∧ ∀ y < start, ¬ s.freeMap.Fits false cnt y := by
  obtain ⟨idx, c, hrun, hs, _, hset⟩ := bitmapScanAndFlip_eq s.freeMap cnt false (Nat.zero_le _)
  rw [freeMapAllocate, hrun, bind_ok] at h
  by_cases he : idx = bitmapError
  · simp only [if_pos he] at h
    cases h
  · simp only [if_neg he, hf] at h
    cases h
    obtain ⟨_, _, hfits, hleast⟩ := hs.resolve_left fun hh => he hh.1
    exact ⟨c, by rw [hf], hfits, hset he, fun y => hleast y (Nat.zero_le y)⟩

lemma inodeCreate_inv {x length : Nat} (h : inodeCreate s x length = .ok (true, u)) :
    ∃ ms start t, malloc s.mallocs = (true, ms) ∧
      freeMapAllocate { s with mallocs := ms } (bytesToSectors length) = .ok (some start, t) ∧
      x < t.sectors ∧ (start + bytesToSectors length ≤ t.sectors →
        u = { t with disk := placeInode t.disk x start length }) := by
  rcases hm : malloc s.mallocs with ⟨_ | _, ms⟩
  · rw [inodeCreate_refused x length hm] at h
    cases h
  cases ha : freeMapAllocate { s with mallocs := ms } (bytesToSectors length) with
  | error e =>
    rw [inodeCreate, assertThat_pos (by omega), bind_ok, hm] at h
    simp only [if_true, ha, bind_error] at h
    cases h
  | ok r =>
    obtain ⟨_ | start, t⟩ := r
    · rw [inodeCreate_no_extent x length hm ha] at h
      cases h
    · by_cases hx : x < t.sectors
      · refine ⟨ms, start, t, rfl, ha, hx, fun hp => ?_⟩
        rw [inodeCreate_placed length hm ha hx hp] at h
        cases h
        rfl
      · rw [inodeCreate, assertThat_pos (by omega), bind_ok, hm] at h
        simp only [if_true, ha, bind_ok, blockWrite, if_neg hx, bind_error] at h
        cases h

lemma Sound.nil (s : Fs) : Sound s [] where
  exclusive := List.nodup_nil
  used := nofun
  placed := nofun
  onDisk := nofun

lemma Sound.map_written (h : Sound s objs) {fm : Obj} (hfm : fm ∈ objs)
    {bs : List Byte} (hl : bs.length ≤ fm.length)
    (hb : ∀ x ∈ owned objs, s.freeMap.bit x = true → c.bit x = true) (ms : List Bool) :
    Sound { s with freeMap := c, disk := s.disk.write fm.base bs, mallocs := ms } objs :=
  h.step rfl (confined_write s.disk (o := fm) (k := 0) (by omega))
    (fun _ ho => sector_notMem_extent h.exclusive hfm ho) hb

structure MapMade (s : Fs) (fm : Obj) (f p : Nat) : Prop where
  only : MapOnly s fm f p
  sector : fm.sector = freeMapSector
  mapped : Mapped s fm
  sound : Sound s [fm]
  root : rootDirSector < s.sectors → s.freeMap.bit rootDirSector = true
  rootFree : rootDirSector ∉ owned [fm]

lemma freeMapCreate_inv (h : Idle s) (hf : s.freeMapFile = none) (hc : s.freeMap.bitCnt = s.sectors)
    (hbits : ∀ k < s.sectors, s.freeMap.bit k = decide (k = freeMapSector ∨ k = rootDirSector))
    (hrun : freeMapCreate s = .ok u) :
    ∃ fm f p, MapMade u fm f p ∧ u.sectors = s.sectors ∧ (s.mallocs = [] → u.mallocs = []) ∧
      u.freeMap.ClearFrom (2 + bytesToSectors (byteCnt s.sectors)) := by
  obtain ⟨⟨ok, s₁⟩, hcreate, hrun⟩ := bind_eq_ok.mp hrun
  cases ok with
  | false => cases hrun
  | true =>
  obtain ⟨ms, start, t, hm, halloc, hlt, hplace⟩ := inodeCreate_inv hcreate
  obtain ⟨c, rfl, hfit, hset, hfirst⟩ := freeMapAllocate_unfiled (s := { s with mallocs := ms }) hf halloc
  have hle : start + bytesToSectors (byteCnt s.freeMap.bitCnt) ≤ s.sectors := hfit.1.trans hc.le
  have hlt : freeMapSector < s.sectors := hlt
  obtain rfl := hplace hle
  have hl : byteCnt s.freeMap.bitCnt < 2147483648 := byteCnt_lt s.freeMap.bitCnt_lt
  let fm : Obj := ⟨freeMapSector, start, byteCnt s.freeMap.bitCnt, hl⟩
  have hnew : ∀ x ∈ fm.extent, x ≠ freeMapSector ∧ x ≠ rootDirSector ∧ x < s.sectors ∧ c.bit x = true := by
    intro x hx
    have hm : start ≤ x ∧ x < start + bytesToSectors (byteCnt s.freeMap.bitCnt) := Obj.mem_extent.mp hx
    have hxs : x < s.sectors := by omega
    have hfree : s.freeMap.bit (start + (x - start)) = false := hfit.2 (x - start) (by omega)
    rw [Nat.add_sub_cancel' hm.1, hbits x hxs, decide_eq_false_iff_not, not_or] at hfree
    exact ⟨hfree.1, hfree.2, hxs, (hset.2 x (hc.symm ▸ hxs)).trans (if_pos hm)⟩
  have hmark : ∀ k < s.sectors, k = freeMapSector ∨ k = rootDirSector → c.bit k = true := by
    intro k hk hk'
    rw [hset.2 k (hc.symm ▸ hk), hbits k hk, decide_eq_true hk', ite_self]
  have hclear : s.freeMap.ClearFrom 2 := by
    intro k hk hlt
    rw [hbits k (hc ▸ hlt), decide_eq_false_iff_not, freeMapSector, rootDirSector]
    omega
  obtain ⟨hsound, hzero⟩ := (Sound.nil { s with freeMap := c, mallocs := ms }).place
    (o := fm) hle (fun hm => (hnew _ hm).1 rfl) fun x hx => by
      refine ⟨List.not_mem_nil, ?_⟩
      rcases Obj.mem_sectors.mp hx with rfl | hx
      · exact ⟨hlt, hmark _ hlt (.inl rfl)⟩
      · exact (hnew x hx).2.2
  let s₁ : Fs := { s with
    freeMap := c, mallocs := ms, disk := placeInode s.disk fm.sector fm.start fm.length }
  have hidle : Idle s₁ := ⟨h.openInodes, h.inode, h.file⟩
  obtain ⟨⟨f, s₂⟩, hopen, hrun⟩ := bind_eq_ok.mp hrun
  obtain ⟨⟨ok, s₃⟩, hwrite, hrun⟩ := bind_eq_ok.mp hrun
  rcases hidle.freeMapOpenFile_eq (show fm.sector = freeMapSector from rfl) hlt
    (hsound.onDisk fm List.mem_cons_self) with ⟨ms₂, hopen', hq₂⟩ | ⟨_, e, hopen'⟩
  · cases hopen'.symm.trans hopen
    have honly := hidle.mapOnly fm ms₂
    have hmap := honly.mapped (hset.1.trans hc) (congrArg byteCnt hc) hle
    obtain ⟨n, ms₃, hw, ht⟩ := hmap.bitmapWrite_eq honly.freeMapFile
    cases hw.symm.trans hwrite
    by_cases hn : n = fm.length
    · rw [decide_eq_true hn] at hrun
      cases hrun
      have hbytes : ((bitmapBytes c).take n).length ≤ fm.length := by
        rw [List.length_take]
        omega
      have hsound' : Sound (s₁.mapOpened fm ms₂) [fm] := hsound.congr rfl rfl rfl
      refine ⟨fm, _, _, ⟨honly.congr (.with_map _ c _ ms₃), rfl, hmap.with_map rfl _ ms₃,
        hsound'.map_written List.mem_cons_self hbytes (fun _ _ => id) ms₃,
        fun hr => hmark _ hr (.inr rfl), fun hm => ?_⟩, rfl, fun he => ?_, ?_⟩
      · rw [owned, List.flatMap_singleton] at hm
        rcases Obj.mem_sectors.mp hm with hm | hm
        · cases hm
        · exact (hnew _ hm).2.1 rfl
      · exact (ht.quiet (hq₂ (malloc_quiet hm he).2)).2
      · rw [← hc]
        exact hclear.sets hset hfirst
    · rw [decide_eq_false hn] at hrun
      cases hrun
  · cases hopen'.symm.trans hopen

lemma MapMade.dirCreate_inv {fm : Obj} {f p : Nat} (h : MapMade s fm f p)
    (hrun : dirCreate s rootDirSector 16 = .ok (true, u)) :
    ∃ root : Obj, root.sector = rootDirSector ∧ root.length = 320 ∧ MapOnly u fm f p ∧
      Sound u [fm, root] ∧ u.freeMap.bitCnt = u.sectors ∧ u.content fm = bitmapBytes u.freeMap ∧
      u.content root = List.replicate 320 0 ∧ u.sectors = s.sectors ∧ (s.mallocs = [] → u.mallocs = []) ∧
      ∀ k, s.freeMap.ClearFrom k → u.freeMap.ClearFrom (k + 1) := by
  have hlen : toInt32 (wrap (16 * entrySize)) = ((320 : Nat) : Int) := by decide
  rw [dirCreate, hlen] at hrun
  obtain ⟨ms, start, t, hm, halloc, hlt, hplace⟩ := inodeCreate_inv hrun
  have hmap := h.mapped.with_map (c := s.freeMap) rfl s.disk ms
  obtain ⟨r, c, bs, ms', halloc', ha⟩ := hmap.freeMapAllocate_eq (bytesToSectors (320 : Nat))
  cases halloc'.symm.trans halloc
  obtain ⟨hfit, hset, hbs⟩ := ha.taken start rfl
  have hc : s.freeMap.bitCnt = s.sectors := h.mapped.bitCnt
  have hle : start + bytesToSectors (320 : Nat) ≤ s.sectors := hfit.1.trans hc.le
  have hlt : rootDirSector < s.sectors := hlt
  obtain rfl := hplace hle
  let root : Obj := ⟨rootDirSector, start, 320, by decide⟩
  have hbytes : bs = bitmapBytes c := hbs (h.only.freeMapFile.symm ▸ Option.some_ne_none f)
  have hkeep : ∀ x < s.sectors, s.freeMap.bit x = true → c.bit x = true := by
    intro x hx hb
    rw [hset.2 x (hc.symm ▸ hx)]
    split
    · rfl
    · exact hb
  have hsound : Sound { s with freeMap := c, disk := s.disk.write fm.base bs, mallocs := ms' } [fm] :=
    h.sound.map_written List.mem_cons_self ha.written (fun x hx => hkeep x (h.sound.used x hx).1) ms'
  have hnew : ∀ x ∈ root.extent, s.freeMap.bit x = false ∧ x < s.sectors ∧ c.bit x = true := by
    intro x hx
    have hm : start ≤ x ∧ x < start + bytesToSectors (320 : Nat) := Obj.mem_extent.mp hx
    have hfree : s.freeMap.bit (start + (x - start)) = false := hfit.2 (x - start) (by omega)
    rw [Nat.add_sub_cancel' hm.1] at hfree
    have hxs : x < s.sectors := by omega
    exact ⟨hfree, hxs, (hset.2 x (hc.symm ▸ hxs)).trans (if_pos hm)⟩
  have hone := h.root hlt
  have hun : ∀ x ∈ root.sectors, x ∉ owned [fm] ∧ x < s.sectors ∧ c.bit x = true := by
    intro x hx
    rcases Obj.mem_sectors.mp hx with rfl | hx
    · exact ⟨h.rootFree, hlt, hkeep _ hlt hone⟩
    · refine ⟨fun hm => ?_, (hnew x hx).2⟩
      cases (h.sound.used x hm).2.symm.trans (hnew x hx).1
  have hself : root.sector ∉ root.extent := fun hm => by cases hone.symm.trans (hnew _ hm).1
  obtain ⟨hs, hz⟩ := hsound.place (o := root) hle hself hun
  refine ⟨root, rfl, rfl, h.only.congr (.with_map s c _ ms'), hs.perm (.swap _ _ _), hset.1.trans hc, ?_, hz,
    rfl, fun he => ha.quiet (malloc_quiet hm he).2, fun k hk => hk.sets hset (ha.first start rfl)⟩
  apply (content_placeInode (o := root) (fun x hx => (hun x hx).1) List.mem_cons_self).trans
  have hlen : bs.length = fm.length := by
    rw [hbytes, length_bitmapBytes, hset.1, h.mapped.length]
    exact congrArg byteCnt hc
  exact (Memory.read_write_of_length s.disk hlen).trans hbytes

lemma not_inUse_of_empty (h : s.content b.root = List.replicate b.root.length 0)
    (hk : k < rootEntries) : entryInUse (s.slot b.root k) ≠ true := by
  have hl := root_slots b hk
  have hfree : entryInUse (List.replicate entrySize 0) = false := by decide
  rw [slot_eq s hl, h, List.drop_replicate, List.take_replicate, Nat.min_eq_left (by omega), hfree]
  exact Bool.false_ne_true

structure Fresh (s : Fs) (b : Books) : Prop where
  live : Live s b []
  files : b.files = []
  empty : s.content b.root = List.replicate b.root.length 0
  synced : s.Synced b.fm

lemma filesysInit_format {disk : Memory} {sectors : Nat} {hs : sectors + 31 < 4294967296}
    {mallocs : List Bool} {junk : Nat → BitVec 32}
    (h : filesysInit (boot disk sectors hs mallocs) junk true = .ok s) :
    ∃ b, Fresh s b ∧ s.sectors = sectors ∧ (mallocs = [] → s.mallocs = []) ∧
      s.freeMap.ClearFrom (3 + bytesToSectors (byteCnt sectors)) := by
  obtain ⟨s₁, hinit, h⟩ := bind_eq_ok.mp h
  obtain ⟨s₄, hformat, hopen⟩ := bind_eq_ok.mp h
  obtain ⟨s₂, hmap, hformat⟩ := bind_eq_ok.mp hformat
  obtain ⟨⟨ok, s₃⟩, hdir, hclose⟩ := bind_eq_ok.mp hformat
  cases ok with
  | false => cases hclose
  | true =>
  rcases freeMapInit_eq (boot disk sectors hs mallocs) junk with ⟨c, ms, hinit', hc, hbits, hq⟩ | ⟨_, e, he⟩
  · cases hinit'.symm.trans hinit
    obtain ⟨fm, f, p, hmade, hsec₂, hq₂, hclear⟩ := freeMapCreate_inv (s := { boot disk sectors hs mallocs with
      freeMap := c, mallocs := ms }) ⟨rfl, fun _ => rfl, fun _ => rfl⟩ rfl hc hbits hmap
    obtain ⟨root, hr, hl, honly, hsound, hcnt, hfm, hzero, hsec₃, hq₃, hclear'⟩ := hmade.dirCreate_inv hdir
    obtain ⟨t, hclose', hidle, hd⟩ := honly.freeMapClose_eq
    cases hclose'.symm.trans hclose
    have hfmLength : fm.length = byteCnt s₄.sectors := by
      rw [hd.sectors, hsec₃]
      exact hmade.mapped.length
    have hsound' : Sound { s₄ with freeMap := s₃.freeMap } [fm, root] :=
      hsound.congr hd.sectors hd.disk rfl
    have hbits : s₃.freeMap.bitCnt = s₄.sectors := hcnt.trans hd.sectors.symm
    rcases hidle.freeMapOpen_eq hmade.sector
      (hmade.sector ▸ (hsound'.used _ (sector_mem_owned List.mem_cons_self)).1)
      (hsound'.onDisk fm List.mem_cons_self) (hd.freeMap ▸ hbits) hfmLength
      (hsound'.placed fm List.mem_cons_self) hbits ((hd.content fm).trans hfm) with
      ⟨d, ms', hrun, hsame, hq'⟩ | ⟨_, e, hrun⟩
    · cases hrun.symm.trans hopen
      let b : Books := ⟨fm, root, [], 0, 0, hmade.sector, hr, hl⟩
      have hempty : s₄.content b.root = List.replicate b.root.length 0 :=
        ((hd.content root).trans hzero).trans (by rw [← hl])
      have hfree : ∀ k < rootEntries, entryInUse (s₄.slot b.root k) ≠ true := fun k hk =>
        not_inUse_of_empty hempty hk
      have hlive := Live.of_idle (b := b) ms' hidle hfmLength hsound' hbits hsame
        (fun k hk hu => (hfree k hk hu).elim) (fun k hk _ _ hu => (hfree k hk hu).elim)
      refine ⟨b.mounted s₄.next, ⟨hlive, rfl, hempty, ?_⟩, ?_, fun hm => ?_, fun k hk hlt => ?_⟩
      · exact ⟨s₃.freeMap, hsame.symm, (hd.content fm).trans hfm⟩
      · exact hd.sectors.trans (hsec₃.trans hsec₂)
      · exact hq' (hd.quiet (hq₃ (hq₂ (hq hm))))
      · have hlt' : k < s₃.freeMap.bitCnt := hsame.1 ▸ hlt
        have hk' : 2 + bytesToSectors (byteCnt sectors) + 1 ≤ k := by omega
        exact (hsame.2 k hlt').trans (hclear' _ hclear k hk' hlt')
    · cases hrun.symm.trans hopen
  · cases he.symm.trans hinit

lemma Live.remounts {held : List (Nat × Nat)} (h : Live s b held)
    (hsync : s.Synced b.fm) (junk : Nat → BitVec 32) :
    ∃ t, filesysInit (boot s.disk s.sectors s.sectors_lt []) junk false = .ok t ∧
      Live t (b.mounted 0) [] ∧ t.disk = s.disk ∧ SameBits s.freeMap t.freeMap ∧ t.mallocs = [] := by
  obtain ⟨c, hsame, hfm⟩ := hsync
  have hcnt := h.inv.bitCnt
  have hc : c.bitCnt = s.sectors := hsame.1.trans hcnt
  have hsound : Sound { s with freeMap := c } b.objs := hsame.sound h.inv.sound hcnt
  rcases freeMapInit_eq (boot s.disk s.sectors s.sectors_lt []) junk with
    ⟨c₀, ms, hinit, hc₀, _, hq⟩ | ⟨hne, _⟩
  · let u : Fs := { boot s.disk s.sectors s.sectors_lt [] with freeMap := c₀, mallocs := ms }
    have hidle : Idle u := ⟨rfl, fun _ => rfl, fun _ => rfl⟩
    have hused := (hsound.used _ (sector_mem_owned b.fm_mem)).1
    rw [b.fm_sector] at hused
    rcases hidle.freeMapOpen_eq b.fm_sector hused (hsound.onDisk _ b.fm_mem) hc₀ h.inv.fmLength
      (hsound.placed _ b.fm_mem) hc hfm with ⟨d, ms', hopen, hcd, hq'⟩ | ⟨hne, _⟩
    · refine ⟨_, ?_, Live.of_idle ms' hidle h.inv.fmLength (c := c) ?_ hc hcd h.inv.names.named
        h.inv.names.distinct, rfl, hsame.trans hcd, hq' (hq rfl)⟩
      · rw [filesysInit, hinit, bind_ok]
        exact hopen
      · exact hsound.congr rfl rfl rfl
    · exact (hne (hq rfl)).elim
  · exact (hne rfl).elim

end Pintos.Filesys
