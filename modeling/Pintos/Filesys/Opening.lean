import Pintos.Filesys.Effects

/-! Opening and closing inodes, down to the release of what a removed file owned. -/

namespace Pintos.Filesys

open Pintos.Foundation Pintos.Kernel

variable {s t : Fs} {b : Books} {refs refs' : List Nat} {p : Nat} {i : Inode} {j : Inode}

structure SameDisk (s t : Fs) : Prop where
  disk : t.disk = s.disk
  freeMap : t.freeMap = s.freeMap
  freeMapFile : t.freeMapFile = s.freeMapFile
  sectors : t.sectors = s.sectors
  quiet : s.mallocs = [] → t.mallocs = []

lemma SameDisk.trans {u : Fs} (h : SameDisk s t) (h' : SameDisk t u) : SameDisk s u :=
  ⟨h'.disk.trans h.disk, h'.freeMap.trans h.freeMap, h'.freeMapFile.trans h.freeMapFile,
    h'.sectors.trans h.sectors, fun hm => h'.quiet (h.quiet hm)⟩

lemma SameDisk.content (h : SameDisk s t) (o : Obj) : t.content o = s.content o := by
  rw [Fs.content, Fs.content, h.disk]

lemma SameDisk.steady (h : SameDisk s t) (b : Books) : Steady s t b where
  files o _ := h.content o
  quiet := h.quiet
  synced _ := fun ⟨c, hc, hs⟩ => ⟨c, h.freeMap ▸ hc, (h.content _).trans hs⟩
  root := h.content _

def Fs.opened (s : Fs) (ms : List Bool) (o : Obj) : Fs :=
  Fs.setInode
    { s with openInodes := s.next :: s.openInodes, next := s.next + 1, mallocs := ms } s.next
    (some { sector := o.sector, openCnt := 1, removed := false, denyWriteCnt := 0, data := o.data })

def Fs.closed (s : Fs) (p : Nat) : Fs :=
  Fs.setInode { s with openInodes := s.openInodes.erase p } p none

lemma SameDisk.closed (s : Fs) (p : Nat) : SameDisk s (s.closed p) := ⟨rfl, rfl, rfl, rfl, id⟩

lemma closed_inode (s : Fs) (p q : Nat) :
    (s.closed p).inode q = if q = p then none else s.inode q := rfl

lemma closed_eq_some {q : Nat} (h : (s.closed p).inode q = some j) : q ≠ p ∧ s.inode q = some j :=
  (Fs.setInode_eq_some h).resolve_left fun hq => nomatch hq.2

lemma SameDisk.setInode (s : Fs) (p : Nat) (x : Option Inode) : SameDisk s (s.setInode p x) :=
  ⟨rfl, rfl, rfl, rfl, id⟩

lemma SameDisk.opened (s : Fs) (o : Obj) {ms : List Bool} (h : s.mallocs = [] → ms = []) :
    SameDisk s (s.opened ms o) := ⟨rfl, rfl, rfl, rfl, h⟩

structure Follows (s t : Fs) : Prop where
  next : s.next ≤ t.next
  kept : ∀ q k, t.inode q = some k →
    (∃ k', s.inode q = some k' ∧ k'.sector = k.sector ∧ k'.denyWriteCnt = k.denyWriteCnt) ∨
      s.next ≤ q ∧ k.denyWriteCnt = 0

lemma Follows.of_sameTable (h : SameTable s t) : Follows s t :=
  ⟨h.next.ge, fun _ k hk => .inl ⟨k, h.inode ▸ hk, rfl, rfl⟩⟩

lemma Follows.old (h : Follows s t) {q : Nat} (hq : q < s.next) {k : Inode} (hk : t.inode q = some k) :
    ∃ k', s.inode q = some k' ∧ k'.sector = k.sector ∧ k'.denyWriteCnt = k.denyWriteCnt :=
  (h.kept q k hk).resolve_right fun hn => absurd hn.1 (by omega)

lemma Follows.trans {u : Fs} (h : Follows s t) (h' : Follows t u) : Follows s u := by
  refine ⟨h.next.trans h'.next, fun q k hk => ?_⟩
  rcases h'.kept q k hk with ⟨k', hk', hs', hw'⟩ | ⟨hq, hw'⟩
  · rcases h.kept q k' hk' with ⟨k'', hk'', hs'', hw''⟩ | ⟨hq, hw''⟩
    · exact .inl ⟨k'', hk'', hs''.trans hs', hw''.trans hw'⟩
    · exact .inr ⟨hq, hw'.symm.trans hw''⟩
  · exact .inr ⟨h.next.trans hq, hw'⟩

lemma Follows.setInode (hi : s.inode p = some i) (hs : j.sector = i.sector)
    (hw : j.denyWriteCnt = i.denyWriteCnt) : Follows s (s.setInode p (some j)) := by
  refine ⟨le_rfl, fun q k hk => .inl ?_⟩
  rcases Fs.setInode_eq_some hk with ⟨rfl, ⟨⟩⟩ | ⟨-, hk⟩
  · exact ⟨i, hi, hs.symm, hw.symm⟩
  · exact ⟨k, hk, rfl, rfl⟩

lemma Follows.of_closed (hn : t.next = s.next) (hq : ∀ q, t.inode q = if q = p then none else s.inode q) :
    Follows s t := by
  refine ⟨hn.ge, fun q k hk => ?_⟩
  rw [hq, Option.ite_none_left_eq_some] at hk
  exact .inl ⟨k, hk.2, rfl, rfl⟩

namespace Inv

variable (h : Inv s b refs)

include h

lemma retable (hd : SameDisk s t) (ht : Table t b.objs (b.fmInode :: refs'))
    (hf : ∃ x, t.file b.fmFile = some x ∧ x.inode = b.fmInode)
    (hi : ∀ p i, s.inode p = some i → ∀ j, t.inode p = some j → j.sector = i.sector)
    (hg : ∀ p i, t.inode p = some i → i.removed = true →
      ∃ j, s.inode p = some j ∧ j.removed = true ∧ j.sector = i.sector) : Inv t b refs' where
  bitCnt := by rw [hd.freeMap, hd.sectors, h.bitCnt]
  fmLength := by rw [hd.sectors, h.fmLength]
  fmOpen := hd.freeMapFile.trans h.fmOpen
  fmHandle := hf
  fmBacked := by
    obtain ⟨i, hs, hz⟩ := h.fmBacked
    obtain ⟨j, hj⟩ := Option.ne_none_iff_exists'.mp (ht.live b.fmInode List.mem_cons_self)
    exact ⟨j, hj, (hi _ i hs j hj).trans hz⟩
  sound := h.sound.congr hd.sectors hd.disk hd.freeMap
  table := ht
  names := h.names.congr (hd.content b.root) hg

variable {o : Obj}

lemma inodeOpen_cases (ho : o ∈ b.objs) : (∃ p i, s.inode p = some i ∧ i.sector = o.sector ∧
      inodeOpen s o.sector = .ok (some p, s.setInode p (some { i with openCnt := i.openCnt + 1 }))) ∨
    ((∀ p i, s.inode p = some i → o.sector ≠ i.sector) ∧ ∃ ms,
      (malloc s.mallocs = (false, ms) ∧ inodeOpen s o.sector = .ok (none, { s with mallocs := ms })) ∨
      (malloc s.mallocs = (true, ms) ∧ inodeOpen s o.sector = .ok (some s.next, s.opened ms o))) := by
  cases hf : s.findOpen o.sector with
  | some p =>
    obtain ⟨i, hi, hs⟩ := h.table.findOpen_some hf
    refine .inl ⟨p, i, hi, hs, ?_⟩
    simp only [inodeOpen, hf, inodeReopen, inodeAt_eq hi, bind_ok]
    rfl
  | none =>
    refine .inr ⟨h.table.findOpen_none hf, ?_⟩
    rcases hm : malloc s.mallocs with ⟨_ | _, ms⟩
    · refine ⟨ms, .inl ⟨rfl, ?_⟩⟩
      simp only [inodeOpen, hf, hm]
      rfl
    · refine ⟨ms, .inr ⟨rfl, ?_⟩⟩
      have hlt := (h.sound.used _ (sector_mem_owned ho)).1
      have hd := h.sound.onDisk o ho
      simp only [inodeOpen, hf, hm, if_true, blockRead, if_pos hlt, bind_ok, blockSectorSize, hd]
      rfl

section

variable (hi : s.inode p = some i)

include hi

lemma reset (hs : j.sector = i.sector) (hr : j.removed = i.removed)
    (ht : Table (s.setInode p (some j)) b.objs (b.fmInode :: refs')) : Inv (s.setInode p (some j)) b refs' := by
  apply h.retable (.setInode s p _) ht h.fmHandle
  · intro q k hk k' hk'
    rcases Fs.setInode_eq_some hk' with ⟨rfl, ⟨⟩⟩ | ⟨-, hk'⟩
    · cases hi.symm.trans hk
      exact hs
    · cases hk.symm.trans hk'
      rfl
  · intro q k hk hkr
    rcases Fs.setInode_eq_some hk with ⟨rfl, ⟨⟩⟩ | ⟨-, hk⟩
    · exact ⟨i, hi, hr ▸ hkr, hs.symm⟩
    · exact ⟨k, hk, hkr, rfl⟩

lemma reopened : Inv (s.setInode p (some { i with openCnt := i.openCnt + 1 })) b (p :: refs) :=
  h.reset hi rfl rfl ((h.table.reopen hi).perm (.swap _ _ _))

omit h hi in
lemma opened_inode (s : Fs) (ms : List Bool) (o : Obj) (q : Nat) :
    (s.opened ms o).inode q = if q = s.next then
      some { sector := o.sector, openCnt := 1, removed := false, denyWriteCnt := 0, data := o.data }
    else s.inode q := rfl

omit hi in
lemma opened (ho : o ∈ b.objs) (hn : ∀ p i, s.inode p = some i → o.sector ≠ i.sector) {ms : List Bool}
    (hq : s.mallocs = [] → ms = []) : Inv (s.opened ms o) b (s.next :: refs) := by
  have hnone := (h.table.fresh s.next le_rfl).1
  have ht : Table (s.opened ms o) b.objs (s.next :: b.fmInode :: refs) :=
    h.table.open_fresh ho hn rfl (opened_inode s ms o) rfl rfl rfl
  apply h.retable (.opened s o hq) (ht.perm (.swap _ _ _)) h.fmHandle
  · intro q k hk k' hk'
    have hne : q ≠ s.next := by
      rintro rfl
      simp [hnone] at hk
    rw [opened_inode, if_neg hne, hk] at hk'
    cases hk'
    rfl
  · intro q k hk hkr
    rcases Fs.setInode_eq_some hk with ⟨-, ⟨⟩⟩ | ⟨-, hk⟩
    · cases hkr
    · exact ⟨k, hk, hkr, rfl⟩

def Lasting (s t : Fs) : Prop :=
  ∀ q k, s.inode q = some k → ∃ k', t.inode q = some k' ∧ k'.sector = k.sector ∧ k'.removed = k.removed

omit h hi in
lemma Lasting.refl (s : Fs) : Lasting s s := fun _ k hk => ⟨k, hk, rfl, rfl⟩

omit h in
lemma Lasting.setInode (hs : j.sector = i.sector)
    (hr : j.removed = i.removed) : Lasting s (s.setInode p (some j)) := by
  intro q k hk
  by_cases hq : q = p
  · subst hq
    cases hi.symm.trans hk
    exact ⟨j, Fs.setInode_inode_self _ _ _, hs, hr⟩
  · exact ⟨k, by rw [Fs.setInode_inode_of_ne _ _ _ hq, hk], rfl, rfl⟩

omit hi in
lemma opens (ho : o ∈ b.objs) :
    ∃ r t, inodeOpen s o.sector = .ok (r, t) ∧ SameDisk s t ∧ t.file = s.file ∧ Lasting s t ∧ Follows s t ∧
      (r = none → s.mallocs ≠ [] ∧ Inv t b refs) ∧
      ∀ p, r = some p → Inv t b (p :: refs) ∧ ∃ i, t.inode p = some i ∧ i.sector = o.sector := by
  rcases h.inodeOpen_cases ho with ⟨p, i, hi, hs, hrun⟩ | ⟨hn, ms, ⟨hm, hrun⟩ | ⟨hm, hrun⟩⟩
  · refine ⟨some p, _, hrun, .setInode s p _, rfl, .setInode hi rfl rfl,
      .setInode hi rfl rfl, nofun, ?_⟩
    rintro q ⟨⟩
    exact ⟨h.reopened hi, _, Fs.setInode_inode_self _ _ _, hs⟩
  · refine ⟨none, _, hrun, ⟨rfl, rfl, rfl, rfl, fun he => (malloc_quiet hm he).2⟩, rfl, .refl s,
      .of_sameTable (.with_map s s.freeMap s.disk ms), fun _ => ⟨fun he => ?_, h.with_mallocs ms⟩, nofun⟩
    cases (malloc_quiet hm he).1
  · refine ⟨some s.next, _, hrun, .opened s o fun he => (malloc_quiet hm he).2, rfl, ?_,
      ⟨Nat.le_succ _, fun q k hk => ?_⟩, nofun, ?_⟩
    · intro q k hk
      have hne : q ≠ s.next := by
        rintro rfl
        simp [(h.table.fresh s.next le_rfl).1] at hk
      exact ⟨k, by rw [opened_inode, if_neg hne, hk], rfl, rfl⟩
    · rcases Fs.setInode_eq_some hk with ⟨hq, ⟨⟩⟩ | ⟨-, hk⟩
      · exact .inr ⟨hq.ge, rfl⟩
      · exact .inl ⟨k, hk, rfl, rfl⟩
    · rintro q ⟨⟩
      exact ⟨h.opened ho hn fun he => (malloc_quiet hm he).2, _,
        (opened_inode s ms o _).trans (if_pos rfl), rfl⟩

lemma kept_of_sector (hs : i.sector = freeMapSector ∨ i.sector = rootDirSector) : i.removed = false := by
  cases hr : i.removed with
  | false => rfl
  | true =>
    obtain ⟨⟨o, ho, he⟩, _⟩ := h.names.gone p i hi hr
    obtain ⟨h0, h1⟩ := Books.sector_ne h.sound.exclusive ho
    rw [← he] at hs
    exact (hs.elim h0 h1).elim

omit h hi in
lemma inodeRelease_eq {fm : Obj} (h : Mapped s fm) (hf : s.freeMapFile ≠ none) (hr : i.removed = true)
    (hs : i.sector = o.sector) (hd : i.data = o.data) (hn : o.sector ∉ o.extent)
    (hu : s.freeMap.Fits true 1 o.sector) (hu' : s.freeMap.Fits true o.cnt o.start) :
    ∃ c disk ms, inodeRelease s i = .ok { s with freeMap := c, disk, mallocs := ms } ∧
      c.bitCnt = s.freeMap.bitCnt ∧
      (∀ k < s.freeMap.bitCnt, k ∉ o.sectors → c.bit k = s.freeMap.bit k) ∧
      (∀ k < s.freeMap.bitCnt, k ∈ o.sectors → c.bit k = false) ∧
      s.disk.Confined 512 disk (· ∈ fm.extent) ∧
      (s.mallocs = [] → ms = [] ∧ disk.read fm.base fm.length = bitmapBytes c) := by
  obtain ⟨c, bs, ms, hrun, hset, hl, hq⟩ := h.freeMapRelease_eq hf hu
  have h₁ := h.with_map hset.1 (s.disk.write fm.base bs) ms
  rw [Obj.mem_extent] at hn
  have hu₁ : c.Fits true o.cnt o.start := by
    refine ⟨hset.1.symm ▸ hu'.1, fun j hj => ?_⟩
    have hle := hu'.1
    rw [hset.2 (o.start + j) (by omega), if_neg (by omega), hu'.2 j hj]
  obtain ⟨c', bs', ms', hrun', hset', hl', hq'⟩ := h₁.freeMapRelease_eq hf hu₁
  refine ⟨c', (s.disk.write fm.base bs).write fm.base bs', ms', ?_, hset'.1.trans hset.1,
    fun k hk hm => ?_, fun k hk hm => ?_, ?_, fun hm => ?_⟩
  · rw [inodeRelease, if_pos hr, hs, hrun, bind_ok, hd]
    exact hrun'
  · rw [Obj.mem_sectors, Obj.mem_extent] at hm
    rw [hset'.2 k (hset.1.symm ▸ hk), if_neg (by omega), hset.2 k hk, if_neg (by omega)]
  · rw [Obj.mem_sectors, Obj.mem_extent] at hm
    rw [hset'.2 k (hset.1.symm ▸ hk)]
    split
    · rfl
    · exact (hset.2 k hk).trans (if_pos (by omega))
  · exact (confined_write s.disk (o := fm) (k := 0) (by omega)).trans
      (confined_write _ (o := fm) (k := 0) (by omega))
  · obtain ⟨hms, hb⟩ := hq' (hq hm).1
    have hlen := (h₁.with_map hset'.1 s.disk ms').length_bytes
    exact ⟨hms, by rw [hb]; exact Memory.read_write_of_length _ hlen⟩

omit h hi in
lemma erase_cons_perm {q : Nat} (hp : p ∈ refs) : ((q :: refs).erase p).Perm (q :: refs.erase p) := by
  by_cases hq : q = p
  · subst hq
    rw [List.erase_cons_head]
    exact List.perm_cons_erase hp
  · rw [List.erase_cons_tail (by simpa using hq)]

lemma ne_fmInode (hp : p ∈ refs) (hc : i.openCnt - 1 = 0) : p ≠ b.fmInode := by
  rintro rfl
  have hcount := (h.table.counted _ i hi).1
  have hpos := List.count_pos_iff.mpr hp
  rw [List.count_cons_self] at hcount
  omega

lemma closed (hp : p ∈ refs) (hc : i.openCnt - 1 = 0) : Inv (s.closed p) b (refs.erase p) := by
  have ht : Table (s.closed p) b.objs ((b.fmInode :: refs).erase p) :=
    h.table.close_last hi hc rfl (closed_inode s p) rfl rfl
  apply h.retable (.closed s p) (ht.perm (erase_cons_perm hp)) h.fmHandle
  · intro q j hj k hk
    cases hj.symm.trans (closed_eq_some hk).2
    rfl
  · intro q j hj hr
    exact ⟨j, (closed_eq_some hj).2, hr, rfl⟩

omit hi in
lemma drop (ho : o ∈ b.files) (hopen : ∀ p i, s.inode p = some i → o.sector ≠ i.sector)
    (hname : ∀ k < rootEntries, entryInUse (s.slot b.root k) = true →
      entrySector (s.slot b.root k) ≠ o.sector) : Inv s (b.erase o) refs where
  bitCnt := h.bitCnt
  fmLength := h.fmLength
  fmOpen := h.fmOpen
  fmHandle := h.fmHandle
  fmBacked := h.fmBacked
  sound := by
    rw [Books.objs_erase h.sound.exclusive ho]
    exact h.sound.mono List.erase_sublist
  table := by
    rw [Books.objs_erase h.sound.exclusive ho]
    exact h.table.drop hopen
  names :=
    { named := fun k hk hu => by
        obtain ⟨o', ho', he⟩ := h.names.named k hk hu
        refine ⟨o', (List.mem_erase_of_ne ?_).mpr ho', he⟩
        rintro rfl
        exact hname k hk hu he.symm
      distinct := h.names.distinct
      gone := fun p i hi hr => by
        obtain ⟨⟨o', ho', he⟩, hn⟩ := h.names.gone p i hi hr
        refine ⟨⟨o', (List.mem_erase_of_ne ?_).mpr ho', he⟩, hn⟩
        rintro rfl
        exact hopen p i hi he }

omit hi in
lemma reserved_of_drop (ho : o ∈ b.files) : Reserved s (b.erase o) o.sector 1 := by
  have hx := h.sound.exclusive
  obtain ⟨hlt, hu⟩ := h.sound.used _ (sector_mem_owned (Books.file_mem ho))
  refine ⟨hlt, fun y hy hy' => ?_⟩
  obtain rfl : y = o.sector := by omega
  refine ⟨?_, hu⟩
  rw [owned, Books.objs_erase hx ho]
  exact hx.notMem_erase (Books.file_mem ho) List.mem_cons_self

omit h hi in
lemma setInode_setInode (s : Fs) (p : Nat) (x y : Option Inode) :
    (s.setInode p x).setInode p y = s.setInode p y := by
  apply congrArg fun g => ({ s with inode := g } : Fs)
  funext q
  simp only [Fs.setInode_inode]
  split <;> rfl

omit h in
lemma inodeClose_shared (hc : i.openCnt - 1 ≠ 0) :
    inodeClose s (some p) = .ok (s.setInode p (some { i with openCnt := i.openCnt - 1 })) := by
  simp only [inodeClose, inodeAt_eq hi, bind_ok, if_neg hc]
  rfl

omit h in
lemma inodeClose_kept (hc : i.openCnt - 1 = 0) (hr : i.removed = false) :
    inodeClose s (some p) = .ok (s.closed p) := by
  simp only [inodeClose, inodeAt_eq hi, bind_ok, if_pos hc, inodeRelease, hr]
  exact congrArg Except.ok (setInode_setInode _ p _ _)

lemma closes_removed (hp : p ∈ refs) (hc : i.openCnt - 1 = 0) (hr : i.removed = true) :
    ∃ o ∈ b.files, o.sector = i.sector ∧ ∃ t, inodeClose s (some p) = .ok t ∧
      Inv t (b.erase o) (refs.erase p) ∧ Steady s t b ∧ t.file = s.file ∧ Follows s t ∧
      ∀ q, q ≠ p → t.inode q = s.inode q := by
  obtain ⟨⟨o, ho, hos⟩, hname⟩ := h.names.gone p i hi hr
  have hx := h.sound.exclusive
  have hom := Books.file_mem ho
  obtain ⟨o', ho', hos', hd⟩ := h.table.backed p i hi
  obtain rfl : o' = o := eq_of_sector hx ho' hom (hos'.trans hos.symm)
  have hne := h.ne_fmInode hi hp hc
  have hdrop : Inv (s.closed p) (b.erase o') (refs.erase p) := by
    apply (h.closed hi hp hc).drop ho
    · intro q j hj he
      obtain ⟨hq, hj⟩ := closed_eq_some hj
      exact hq (h.table.inj q p j i hj hi (he.symm.trans hos))
    · rw [hos]
      exact hname
  have hmap : Mapped (Fs.setInode { s with openInodes := s.openInodes.erase p } p
      (some { i with openCnt := i.openCnt - 1 })) b.fm := by
    refine ⟨h.mapped.bitCnt, h.mapped.length, h.mapped.placed, fun f hf => ?_⟩
    obtain rfl : b.fmFile = f := Option.some.inj (h.fmOpen.symm.trans hf)
    obtain ⟨x, hxf, hxi⟩ := h.fmHandle
    obtain ⟨j, hj, _⟩ := h.fmBacked
    refine ⟨x, j, hxf, ?_, h.fmInode_data hj⟩
    rw [Fs.setInode_inode_of_ne _ _ _ (by rw [hxi]; exact Ne.symm hne), hxi]
    exact hj
  have hfit : ∀ x cnt, (∀ y, x ≤ y → y < x + cnt → y ∈ o'.sectors) → x + cnt ≤ s.sectors →
      s.freeMap.Fits true cnt x := by
    intro x cnt hin hle
    refine ⟨h.bitCnt.symm ▸ hle, fun j hj => ?_⟩
    exact (h.bit_of_owned (mem_owned.mpr ⟨o', hom, hin (x + j) (by omega) (by omega)⟩)).2
  have hsec := (h.sound.used _ (sector_mem_owned hom)).1
  obtain ⟨c, disk, ms, hrun, hbc, hkeep, _, hcon, hq⟩ := inodeRelease_eq hmap
    (h.fmOpen.symm ▸ Option.some_ne_none _) hr hos.symm hd.symm (sector_notMem_extent hx hom hom)
    (hfit o'.sector 1 (fun y hy hy' => Obj.mem_sectors.mpr (.inl (by omega))) (by omega))
    (hfit o'.start o'.cnt (fun y hy hy' => Obj.mem_sectors.mpr (.inr (Obj.mem_extent.mpr ⟨hy, hy'⟩)))
      (h.sound.placed _ hom))
  refine ⟨o', ho, hos, { s.closed p with freeMap := c, disk, mallocs := ms }, ?_, ?_, ?_, rfl,
    .of_closed rfl (closed_inode s p), fun q hq => if_neg hq⟩
  · simp only [inodeClose, inodeAt_eq hi, bind_ok, if_pos hc, hrun]
    exact congrArg Except.ok (setInode_setInode
      { s with openInodes := s.openInodes.erase p, freeMap := c, disk, mallocs := ms } p _ _)
  · apply hdrop.spare (.with_map _ c disk ms) hbc (hcon.mono fun _ => .inl)
    intro y hy hu
    rw [Books.objs_erase hx ho] at hy
    have hny : y ∉ o'.sectors := fun hm => hx.notMem_erase hom hm hy
    have hyo : y ∈ owned b.objs := by
      obtain ⟨o'', hm, hmy⟩ := mem_owned.mp hy
      exact mem_owned.mpr ⟨o'', List.mem_of_mem_erase hm, hmy⟩
    exact (hkeep y (h.bit_of_owned hyo).1 hny).trans hu
  · apply Steady.of_spared hx (hcon.mono fun _ => .inl)
    · exact fun hm => (hq hm).1
    · exact fun hm _ => .of_eq (hq hm).2

lemma closes_unless (hp : p ∈ refs) (hk : i.removed = true → i.openCnt - 1 ≠ 0) :
    ∃ t, inodeClose s (some p) = .ok t ∧ Inv t b (refs.erase p) ∧ SameDisk s t ∧ t.file = s.file ∧
      Follows s t ∧ ∀ q, q ≠ p → t.inode q = s.inode q := by
  by_cases hc : i.openCnt - 1 = 0
  · have hr : i.removed = false := eq_false_of_ne_true fun hr => hk hr hc
    exact ⟨_, inodeClose_kept hi hc hr, h.closed hi hp hc, .closed s p, rfl,
      .of_closed rfl (closed_inode s p), fun q hq => if_neg hq⟩
  · refine ⟨_, inodeClose_shared hi hc, ?_, .setInode s p _, rfl, .setInode hi rfl rfl,
      fun q hq => if_neg hq⟩
    exact h.reset hi rfl rfl ((h.table.close_shared hi hc).perm (erase_cons_perm hp))

lemma closes_kept (hp : p ∈ refs) (hr : i.removed = false) :
    ∃ t, inodeClose s (some p) = .ok t ∧ Inv t b (refs.erase p) ∧ SameDisk s t ∧ t.file = s.file ∧
      Follows s t ∧ ∀ q, q ≠ p → t.inode q = s.inode q :=
  h.closes_unless hi hp fun hr' => by simp [hr] at hr'

end

def Settles (s : Fs) (b b' : Books) (p : Nat) : Prop :=
  b' = b ∨ ∃ o ∈ b.files, b' = b.erase o ∧ ∃ i, s.inode p = some i ∧ i.sector = o.sector ∧
    i.removed = true ∧ i.openCnt - 1 = 0

lemma closes (hp : p ∈ refs) : ∃ t b', inodeClose s (some p) = .ok t ∧ Inv t b' (refs.erase p) ∧ Steady s t b ∧
      t.file = s.file ∧ Follows s t ∧ (∀ q, q ≠ p → t.inode q = s.inode q) ∧ Settles s b b' p := by
  obtain ⟨i, hi⟩ := Option.ne_none_iff_exists'.mp (h.table.live p (List.mem_cons_of_mem _ hp))
  by_cases hk : i.removed = true → i.openCnt - 1 ≠ 0
  · obtain ⟨t, hrun, hinv, hd, hf, hfol, hq⟩ := h.closes_unless hi hp hk
    exact ⟨t, b, hrun, hinv, hd.steady b, hf, hfol, hq, .inl rfl⟩
  · simp only [Classical.not_imp, not_not] at hk
    obtain ⟨o, ho, hos, t, hrun, hinv, hst, hf, hfol, hq⟩ := h.closes_removed hi hp hk.2 hk.1
    exact ⟨t, b.erase o, hrun, hinv, hst, hf, hfol, hq, .inr ⟨o, ho, rfl, i, hi, hos.symm, hk⟩⟩

end Inv

end Pintos.Filesys
