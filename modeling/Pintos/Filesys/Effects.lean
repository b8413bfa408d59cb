import Pintos.Filesys.Volumes

/-! What allocating, releasing, creating, opening and closing leave of the whole file system. -/

namespace Pintos.Filesys

open Pintos.Foundation Pintos.Kernel

structure SameTable (s t : Fs) : Prop where
  openInodes : t.openInodes = s.openInodes
  inode : t.inode = s.inode
  file : t.file = s.file
  next : t.next = s.next
  freeMapFile : t.freeMapFile = s.freeMapFile
  sectors : t.sectors = s.sectors

structure Carries (s t : Fs) (b : Books) : Prop where
  files : ∀ o ∈ b.files, t.content o = s.content o
  quiet : s.mallocs = [] → t.mallocs = []
  synced : s.mallocs = [] → s.Synced b.fm → t.Synced b.fm

structure Steady (s t : Fs) (b : Books) : Prop extends Carries s t b where
  root : t.content b.root = s.content b.root

def Spared (b : Books) (x : Nat) : Prop := x ∈ b.fm.extent ∨ x ∉ owned b.objs

variable {s t u : Fs} {b : Books} {refs : List Nat}

lemma SameTable.refl (s : Fs) : SameTable s s := ⟨rfl, rfl, rfl, rfl, rfl, rfl⟩

lemma SameTable.with_map (s : Fs) (c : Bitmap) (disk : Memory) (ms : List Bool) :
    SameTable s { s with freeMap := c, disk, mallocs := ms } := ⟨rfl, rfl, rfl, rfl, rfl, rfl⟩

lemma SameTable.trans (h : SameTable s t) (h' : SameTable t u) : SameTable s u :=
  ⟨h'.1.trans h.1, h'.2.trans h.2, h'.3.trans h.3, h'.4.trans h.4, h'.5.trans h.5, h'.6.trans h.6⟩

lemma Carries.trans (h : Carries s t b) (h' : Carries t u b) : Carries s u b where
  files o ho := (h'.files o ho).trans (h.files o ho)
  quiet hm := h'.quiet (h.quiet hm)
  synced hm hs := h'.synced (h.quiet hm) (h.synced hm hs)

lemma Carries.mono (h : Carries s t b) {b' : Books} (hf : b'.fm = b.fm) (hs : b'.files ⊆ b.files) :
    Carries s t b' where
  files o ho := h.files o (hs ho)
  quiet := h.quiet
  synced := by
    rw [hf]
    exact h.synced

lemma malloc_quiet {ms ms' : List Bool} {ok : Bool} (h : malloc ms = (ok, ms')) (hm : ms = []) :
    ok = true ∧ ms' = [] := by
  subst hm
  cases h
  exact ⟨rfl, rfl⟩

lemma Steady.with_mallocs (s : Fs) (b : Books) {ms : List Bool} (h : s.mallocs = [] → ms = []) :
    Steady s { s with mallocs := ms } b := ⟨⟨fun _ _ => rfl, h, fun _ => id⟩, rfl⟩

lemma Steady.trans (h : Steady s t b) (h' : Steady t u b) : Steady s u b :=
  ⟨h.toCarries.trans h'.toCarries, h'.root.trans h.root⟩

variable {o : Obj}

section

variable (hx : Exclusive Obj.sectors b.objs)

include hx

lemma not_spared_sector (ho : o ∈ b.objs) : ¬ Spared b o.sector := by
  rintro (hm | hn)
  · exact sector_notMem_extent hx b.fm_mem ho hm
  · exact hn (sector_mem_owned ho)

lemma not_spared_extent (ho : o ∈ b.objs) (hne : o ≠ b.fm) : ∀ x ∈ o.extent, ¬ Spared b x := by
  rintro x hm (hf | hn)
  · exact extent_disjoint hx ho b.fm_mem hne hm hf
  · exact hn (extent_subset_owned ho x hm)

lemma content_eq_of_spared (hd : s.disk.Confined 512 t.disk (Spared b)) (ho : o ∈ b.objs) (hne : o ≠ b.fm) :
    t.content o = s.content o :=
  Fs.content_eq_of_confined hd (not_spared_extent hx ho hne)

lemma Steady.of_spared (hd : s.disk.Confined 512 t.disk (Spared b)) (hq : s.mallocs = [] → t.mallocs = [])
    (hs : s.mallocs = [] → s.Synced b.fm → t.Synced b.fm) : Steady s t b where
  files _ ho := content_eq_of_spared hx hd (Books.file_mem ho) (Books.file_ne hx ho).1
  quiet := hq
  synced := hs
  root := content_eq_of_spared hx hd b.root_mem (Ne.symm b.fm_ne_root)

end

lemma read_placeInode (m : Memory) (o : Obj) (hs : o.sector ∉ o.extent) (hlt : o.start < 4294967296) :
    InodeDisk.ofBytes ((placeInode m o.sector o.start o.length).read (512 * o.sector) 512) = o.data ∧
      (placeInode m o.sector o.start o.length).read o.base o.length = List.replicate o.length 0 := by
  have hl := o.length_le
  rw [Obj.mem_extent, Obj.cnt] at hs
  rw [blockSectorSize, Obj.cnt] at hl
  constructor
  · rw [placeInode, Memory.read_write_of_apart _ (by rw [List.length_replicate]; omega),
      Memory.read_write_of_length _ (length_toBytes _)]
    exact o.ofBytes_toBytes hlt
  · obtain ⟨r, hr⟩ := Nat.exists_eq_add_of_le hl
    rw [placeInode, Obj.base, blockSectorSize, hr, ← List.replicate_append_replicate,
      Memory.write_append, Memory.read_write_of_apart _ (by rw [List.length_replicate]; exact .inl le_rfl),
      Memory.read_write_of_length _ List.length_replicate]

lemma Sound.place {objs : List Obj} (h : Sound s objs) (hp : o.start + o.cnt ≤ s.sectors)
    (hn : o.sector ∉ o.extent)
    (ho : ∀ x ∈ o.sectors, x ∉ owned objs ∧ x < s.sectors ∧ s.freeMap.bit x = true) :
    Sound { s with disk := placeInode s.disk o.sector o.start o.length } (o :: objs) ∧
      Fs.content { s with disk := placeInode s.disk o.sector o.start o.length } o =
        List.replicate o.length 0 := by
  have hlt := s.sectors_lt
  obtain ⟨hd, hz⟩ := read_placeInode s.disk o hn (by omega)
  have hs : Sound { s with disk := placeInode s.disk o.sector o.start o.length } objs :=
    h.step rfl (confined_placeInode s.disk o) (fun o' ho' hm => (ho _ hm).1 (sector_mem_owned ho'))
      fun _ _ => id
  exact ⟨hs.add hp (List.nodup_cons.mpr ⟨hn, List.nodup_range'⟩) ho hd, hz⟩

lemma content_placeInode {objs : List Obj} (ho : ∀ x ∈ o.sectors, x ∉ owned objs) {o' : Obj}
    (ho' : o' ∈ objs) :
    Fs.content { s with disk := placeInode s.disk o.sector o.start o.length } o' = s.content o' :=
  Fs.content_eq_of_confined (confined_placeInode s.disk o)
    fun y hy hm => ho y hm (extent_subset_owned ho' y hy)

def Reserved (s : Fs) (b : Books) (x cnt : Nat) : Prop :=
  x + cnt ≤ s.sectors ∧ ∀ y, x ≤ y → y < x + cnt → y ∉ owned b.objs ∧ s.freeMap.bit y = true

lemma Reserved.mono {x cnt : Nat} (h : Reserved s b x cnt) (hs : t.sectors = s.sectors)
    (hb : ∀ y < s.sectors, s.freeMap.bit y = true → t.freeMap.bit y = true) : Reserved t b x cnt := by
  refine ⟨hs ▸ h.1, fun y hy hy' => ?_⟩
  obtain ⟨hn, hu⟩ := h.2 y hy hy'
  have hle := h.1
  exact ⟨hn, hb y (by omega) hu⟩

namespace Inv

variable (h : Inv s b refs)

include h

lemma step (ht : SameTable s t) (hc : t.freeMap.bitCnt = s.freeMap.bitCnt)
    {P : Nat → Prop} (hd : s.disk.Confined 512 t.disk P) (hp : ∀ o ∈ b.objs, ¬ P o.sector)
    (hb : ∀ x ∈ owned b.objs, s.freeMap.bit x = true → t.freeMap.bit x = true) (hn : Names t b) :
    Inv t b refs where
  bitCnt := by rw [hc, h.bitCnt, ht.sectors]
  fmLength := by rw [h.fmLength, ht.sectors]
  fmOpen := ht.freeMapFile.trans h.fmOpen
  fmHandle := ht.file ▸ h.fmHandle
  fmBacked := ht.inode ▸ h.fmBacked
  sound := h.sound.step ht.sectors hd hp hb
  table := h.table.congr ht.openInodes ht.inode ht.file ht.next
  names := hn

lemma spare (ht : SameTable s t) (hc : t.freeMap.bitCnt = s.freeMap.bitCnt)
    (hd : s.disk.Confined 512 t.disk (Spared b))
    (hb : ∀ x ∈ owned b.objs, s.freeMap.bit x = true → t.freeMap.bit x = true) : Inv t b refs := by
  have hx := h.sound.exclusive
  apply h.step ht hc hd (fun o ho => not_spared_sector hx ho) hb
  apply h.names.congr
  · exact content_eq_of_spared hx hd b.root_mem (Ne.symm b.fm_ne_root)
  · intro p i hi hr
    exact ⟨i, ht.inode ▸ hi, hr, rfl⟩

variable {bs : List Byte} {cnt x : Nat}

lemma bit_of_owned (hx : x ∈ owned b.objs) : x < s.freeMap.bitCnt ∧ s.freeMap.bit x = true := by
  rw [h.bitCnt]
  exact h.sound.used x hx

omit h in
lemma confined_map (b : Books) (m : Memory) (hl : bs.length ≤ b.fm.length) :
    m.Confined 512 (m.write b.fm.base bs) (Spared b) :=
  (confined_write m (o := b.fm) (k := 0) (by omega)).mono fun _ => .inl

omit h in
lemma content_map {m : Memory} (hl : bs.length = o.length) :
    (m.write o.base bs).read o.base o.length = bs := by
  rw [← hl, Memory.read_write]

lemma not_owned_of_free (hf : s.freeMap.Fits false cnt x) : ∀ y, x ≤ y → y < x + cnt → y ∉ owned b.objs := by
  intro y hy hy' hm
  have hu := (h.bit_of_owned hm).2
  rw [← Nat.add_sub_cancel' hy, hf.2 (y - x) (by omega)] at hu
  cases hu

lemma allocates (cnt : Nat) : ∃ r c bs ms, freeMapAllocate s cnt =
        .ok (r, { s with freeMap := c, disk := s.disk.write b.fm.base bs, mallocs := ms }) ∧
      Allocates s b.fm cnt r c bs ms ∧
      Inv { s with freeMap := c, disk := s.disk.write b.fm.base bs, mallocs := ms } b refs ∧
      Steady s { s with freeMap := c, disk := s.disk.write b.fm.base bs, mallocs := ms } b ∧
      ∀ y < s.sectors, s.freeMap.bit y = true → c.bit y = true := by
  obtain ⟨r, c, bs, ms, hrun, ha⟩ := h.mapped.freeMapAllocate_eq cnt
  have hd := confined_map b s.disk ha.written
  have hbits : ∀ y < s.freeMap.bitCnt, s.freeMap.bit y = true → c.bit y = true := by
    intro y hy hu
    cases r with
    | none => rw [(ha.same rfl).2 y hy, hu]
    | some x =>
      rw [(ha.taken x rfl).2.1.2 y hy]
      split
      · rfl
      · exact hu
  refine ⟨r, c, bs, ms, hrun, ha, ?_, ?_, ?_⟩
  · apply h.spare (.with_map s c _ ms) ha.bitCnt hd
    intro x hx
    exact hbits x (h.bit_of_owned hx).1
  · apply Steady.of_spared h.sound.exclusive hd
    · exact fun hm => ha.quiet hm
    · intro hm hs
      exact ha.synced h.mapped hm hs (h.fmOpen.symm ▸ Option.some_ne_none _)
  · exact fun y hy => hbits y (h.bitCnt.symm ▸ hy)

lemma reserved_of_allocates {c : Bitmap} {ms : List Bool} (ha : Allocates s b.fm cnt (some x) c bs ms) :
    Reserved { s with freeMap := c, disk := s.disk.write b.fm.base bs, mallocs := ms } b x cnt := by
  obtain ⟨hfit, hset, _⟩ := ha.taken x rfl
  have hlt := hfit.1
  refine ⟨h.bitCnt ▸ hlt, fun y hy hy' => ⟨h.not_owned_of_free hfit y hy hy', ?_⟩⟩
  exact (hset.2 y (by omega)).trans (if_pos ⟨hy, hy'⟩)

lemma allocate (cnt : Nat) :
    ∃ r t, freeMapAllocate s cnt = .ok (r, t) ∧ Inv t b refs ∧ Steady s t b ∧ SameTable s t ∧
      (∀ y < s.sectors, s.freeMap.bit y = true → t.freeMap.bit y = true) ∧
      (∀ x, r = some x → ∀ y, x ≤ y → y < x + cnt → s.freeMap.bit y = false) ∧
      ∀ x, r = some x → Reserved t b x cnt := by
  obtain ⟨r, c, bs, ms, hrun, ha, hinv, hst, hbits⟩ := h.allocates cnt
  refine ⟨r, _, hrun, hinv, hst, .with_map s c _ ms, hbits, fun x hx y hy hy' => ?_, ?_⟩
  · rw [← (ha.taken x hx).1.2 (y - x) (by omega), Nat.add_sub_cancel' hy]
  · rintro x rfl
    exact h.reserved_of_allocates ha

lemma release (hr : Reserved s b x cnt) :
    ∃ t, freeMapRelease s x cnt = .ok t ∧ Inv t b refs ∧ Steady s t b ∧ SameTable s t ∧
      s.freeMap.Sets t.freeMap x cnt false := by
  have hfit : s.freeMap.Fits true cnt x :=
    ⟨h.bitCnt.symm ▸ hr.1, fun j hj => (hr.2 (x + j) (by omega) (by omega)).2⟩
  obtain ⟨c, bs, ms, hrun, hset, hl, hq⟩ :=
    h.mapped.freeMapRelease_eq (h.fmOpen.symm ▸ Option.some_ne_none _) hfit
  have hd := confined_map b s.disk hl
  refine ⟨_, hrun, ?_, ?_, .with_map s c _ ms, hset⟩
  · apply h.spare (.with_map s c _ ms) hset.1 hd
    intro y hy hu
    have hn : ¬ (x ≤ y ∧ y < x + cnt) := fun hb => (hr.2 y hb.1 hb.2).1 hy
    exact (hset.2 y (h.bit_of_owned hy).1).trans ((if_neg hn).trans hu)
  · apply Steady.of_spared h.sound.exclusive hd
    · exact fun hm => (hq hm).1
    · intro hm _
      apply Fs.Synced.of_eq
      simp only [Fs.content, (hq hm).2]
      exact content_map ((h.mapped.with_map hset.1 s.disk ms).length_bytes)

lemma add (hs : Sound s (o :: b.objs)) : Inv s (b.add o) refs where
  bitCnt := h.bitCnt
  fmLength := h.fmLength
  fmOpen := h.fmOpen
  fmHandle := h.fmHandle
  fmBacked := h.fmBacked
  sound := hs.perm ((List.Perm.swap b.fm o _).trans ((List.Perm.swap b.root o _).cons _))
  table := h.table.mono fun x hx => by
    rcases Books.mem_objs.mp hx with rfl | rfl | hx
    · exact (b.add o).fm_mem
    · exact (b.add o).root_mem
    · exact Books.file_mem (List.mem_cons_of_mem _ hx)
  names :=
    { named := fun k hk hu => by
        obtain ⟨o', ho', he⟩ := h.names.named k hk hu
        exact ⟨o', List.mem_cons_of_mem _ ho', he⟩
      distinct := h.names.distinct
      gone := fun p i hi hr => by
        obtain ⟨⟨o', ho', he⟩, hn⟩ := h.names.gone p i hi hr
        exact ⟨⟨o', List.mem_cons_of_mem _ ho', he⟩, hn⟩ }

omit h in
lemma spared_of_unowned (h : ∀ x ∈ o.sectors, x ∉ owned b.objs) :
    ∀ x, x ∈ o.sectors → Spared b x := fun x hx => .inr (h x hx)

lemma with_mallocs (ms : List Bool) : Inv { s with mallocs := ms } b refs :=
  h.spare (.with_map s s.freeMap s.disk ms) rfl (.refl _ _ _) fun _ _ => id

lemma place (hx : Reserved s b o.sector 1) (he : Reserved s b o.start o.cnt) (hn : o.sector ∉ o.extent) :
    Inv { s with disk := placeInode s.disk o.sector o.start o.length } (b.add o) refs ∧
      Steady s { s with disk := placeInode s.disk o.sector o.start o.length } b ∧
      Fs.content { s with disk := placeInode s.disk o.sector o.start o.length } o =
        List.replicate o.length 0 := by
  have hun : ∀ y ∈ o.sectors, y ∉ owned b.objs ∧ y < s.sectors ∧ s.freeMap.bit y = true := by
    intro y hy
    rcases Obj.mem_sectors.mp hy with rfl | hy
    · obtain ⟨h1, h2⟩ := hx.2 o.sector le_rfl (by omega)
      exact ⟨h1, by have := hx.1; omega, h2⟩
    · obtain ⟨h0, h0'⟩ := Obj.mem_extent.mp hy
      obtain ⟨h1, h2⟩ := he.2 y h0 h0'
      exact ⟨h1, by have := he.1; omega, h2⟩
  obtain ⟨hs, hz⟩ := h.sound.place he.1 hn hun
  have hc : s.disk.Confined 512 (placeInode s.disk o.sector o.start o.length) (Spared b) :=
    (confined_placeInode s.disk o).mono (spared_of_unowned fun y hy => (hun y hy).1)
  have hinv : Inv { s with disk := placeInode s.disk o.sector o.start o.length } b refs :=
    h.spare (.with_map s s.freeMap _ s.mallocs) rfl hc fun _ _ => id
  refine ⟨hinv.add hs, ?_, hz⟩
  refine Steady.of_spared h.sound.exclusive hc id fun _ ⟨c, hc, hs⟩ => ⟨c, hc, ?_⟩
  rw [← hs]
  exact content_placeInode (fun y hy => (hun y hy).1) b.fm_mem

lemma create (hx : Reserved s b x 1) {length : Nat} (hl : length < 2147483648) :
    ∃ ok t, inodeCreate s x length = .ok (ok, t) ∧ SameTable s t ∧ Steady s t b ∧
      (∀ y < s.sectors, s.freeMap.bit y = true → t.freeMap.bit y = true) ∧
      (ok = false → Inv t b refs ∧ Reserved t b x 1) ∧
      (ok = true → ∃ o : Obj, o.sector = x ∧ o.length = length ∧ o.sector ∉ owned b.objs ∧
        Inv t (b.add o) refs ∧ t.content o = List.replicate length 0 ∧
        ∀ y ∈ o.extent, s.freeMap.bit y = false) := by
  rcases hm : malloc s.mallocs with ⟨_ | _, ms⟩
  · refine ⟨false, _, inodeCreate_refused x length hm, .with_map s s.freeMap s.disk ms, ?_, fun _ _ => id,
      fun _ => ⟨h.with_mallocs ms, hx⟩, nofun⟩
    exact Steady.with_mallocs s b fun he => (malloc_quiet hm he).2
  have hst₀ : Steady s { s with mallocs := ms } b :=
    Steady.with_mallocs s b fun he => (malloc_quiet hm he).2
  obtain ⟨r, t, hrun, hinv, hst, htab, hbits, hfree, hres⟩ :=
    (h.with_mallocs ms).allocate (bytesToSectors length)
  have hxt : Reserved t b x 1 := Reserved.mono hx htab.sectors hbits
  have htab' : SameTable s t := (SameTable.with_map s s.freeMap s.disk ms).trans htab
  cases r with
  | none =>
    exact ⟨false, t, inodeCreate_no_extent x length hm hrun, htab', hst₀.trans hst, hbits,
      fun _ => ⟨hinv, hxt⟩, nofun⟩
  | some start =>
    have hr := hres start rfl
    have hxs := hx.1
    have hts : t.sectors = s.sectors := htab'.sectors
    have hfree' : ∀ y ∈ Obj.extent ⟨x, start, length, hl⟩, s.freeMap.bit y = false := by
      intro y hy
      obtain ⟨hy, hy'⟩ := Obj.mem_extent.mp hy
      exact hfree start rfl y hy hy'
    have hself : x ∉ Obj.extent ⟨x, start, length, hl⟩ := by
      intro hm
      have hbit := (hx.2 x le_rfl (by omega)).2
      rw [hfree' x hm] at hbit
      cases hbit
    obtain ⟨hinv', hst', hz⟩ := hinv.place (o := ⟨x, start, length, hl⟩) hxt hr hself
    refine ⟨true, _, inodeCreate_placed length hm hrun (by omega) hr.1,
      htab'.trans (.with_map t t.freeMap _ t.mallocs), (hst₀.trans hst).trans hst', hbits, ?_, ?_⟩
    · intro hf
      cases hf
    · exact fun _ => ⟨⟨x, start, length, hl⟩, rfl, rfl, (hx.2 x le_rfl (by omega)).1, hinv', hz, hfree'⟩

end Inv

end Pintos.Filesys
