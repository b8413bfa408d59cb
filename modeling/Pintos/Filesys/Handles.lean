import Pintos.Filesys.Held

/-! Open file handles and the calls made through them. -/

namespace Pintos.Filesys

open Pintos.Foundation Pintos.Kernel

/-- `held` pairs each open file that was handed out with the inode it refers to. -/
structure Live (s : Fs) (b : Books) (held : List (Nat × Nat)) : Prop where
  inv : Inv s b (held.map Prod.snd)
  keys : (held.map Prod.fst).Nodup
  fm : b.fmFile ∉ held.map Prod.fst
  file : ∀ f p, (f, p) ∈ held → ∃ x, s.file f = some x ∧ x.inode = p
  regular : ∀ f p, (f, p) ∈ held → ∀ i, s.inode p = some i →
    i.sector ≠ freeMapSector ∧ i.sector ≠ rootDirSector
  denied : ∀ p i, s.inode p = some i → i.denyWriteCnt = s.deniers held p

structure OpenOn (s : Fs) (f p : Nat) (o : Obj) (x : File) (i : Inode) : Prop where
  file : s.file f = some x
  ptr : x.inode = p
  inode : s.inode p = some i
  sector : i.sector = o.sector
  data : i.data = o.data

variable {s t : Fs} {b b' : Books} {held : List (Nat × Nat)} {f p : Nat} {x : File}

def Tracks (s t : Fs) : Prop :=
  s.next ≤ t.next ∧ ∀ q < s.next, ∀ j, t.inode q = some j → ∃ i, s.inode q = some i ∧ i.sector = j.sector

lemma Tracks.of_follows (h : Follows s t) : Tracks s t := by
  refine ⟨h.next, fun q hq j hj => ?_⟩
  obtain ⟨i, hi, hs, _⟩ := h.old hq hj
  exact ⟨i, hi, hs⟩

lemma Marks.sectors (h : Marks s t f x) : Tracks s t :=
  ⟨h.next.ge, fun q _ j hj => h.tracks q j hj⟩

lemma Tracks.trans {u : Fs} (h : Tracks s t) (h' : Tracks t u) : Tracks s u := by
  refine ⟨h.1.trans h'.1, fun q hq j hj => ?_⟩
  obtain ⟨k, hk, hs⟩ := h'.2 q (hq.trans_le h.1) j hj
  obtain ⟨i, hi, hs'⟩ := h.2 q hq k hk
  exact ⟨i, hi, hs'.trans hs⟩

structure Writes (s t : Fs) (b : Books) (o : Obj) (ofs : Nat) (buffer : List Byte) (n : Nat) : Prop where
  table : SameTable s t
  freeMap : t.freeMap = s.freeMap
  quiet : s.mallocs = [] → t.mallocs = []
  own : t.content o = overlay (s.content o) ofs (buffer.take n)
  others : ∀ o' ∈ b.objs, o' ≠ o → t.content o' = s.content o'

namespace Live

variable (h : Live s b held)

include h

lemma openOn (hm : (f, p) ∈ held) : ∃ o x i, o ∈ b.files ∧ OpenOn s f p o x i := by
  obtain ⟨x, hf, hx⟩ := h.file f p hm
  have href : p ∈ b.fmInode :: held.map Prod.snd :=
    List.mem_cons_of_mem _ (List.mem_map.mpr ⟨(f, p), hm, rfl⟩)
  obtain ⟨i, hi⟩ := Option.ne_none_iff_exists'.mp (h.inv.table.live p href)
  obtain ⟨o, ho, hs, hd⟩ := h.inv.table.backed p i hi
  obtain ⟨h0, h1⟩ := h.regular f p hm i hi
  refine ⟨o, x, i, ?_, hf, hx, hi, hs.symm, hd.symm⟩
  rcases Books.mem_objs.mp ho with rfl | rfl | ho
  · exact (h0 (hs.symm.trans b.fm_sector)).elim
  · exact (h1 (hs.symm.trans b.root_sector)).elim
  · exact ho

lemma ne_fm (hm : (f, p) ∈ held) : f ≠ b.fmFile := by
  rintro rfl
  exact h.fm (List.mem_map.mpr ⟨_, hm, rfl⟩)

lemma counted : Counted s held [b.fmInode] :=
  ⟨h.inv.table.toRefs, h.keys, h.file, h.denied⟩

lemma lt_next (hm : (f, p) ∈ held) : f < s.next ∧ p < s.next := h.counted.lt_next hm

variable {i : Inode} {q : Nat} {o : Obj}

lemma regular_of_follows (hfol : Follows s t) {g : Nat} (hm : (g, q) ∈ held)
    (hi : t.inode q = some i) : i.sector ≠ freeMapSector ∧ i.sector ≠ rootDirSector := by
  obtain ⟨i', hi', hs, _⟩ := hfol.old (h.lt_next hm).2 hi
  rw [← hs]
  exact h.regular g q hm i' hi'

lemma keep (hi : Inv t b' (held.map Prod.snd)) (hf : t.file = s.file)
    (hfol : Follows s t) (hb : b'.fmFile = b.fmFile) : Live t b' held where
  inv := hi
  keys := h.keys
  fm := hb ▸ h.fm
  file := hf ▸ h.file
  regular _ _ hm _ hi := h.regular_of_follows hfol hm hi
  denied _ _ hi := h.counted.denied_of_follows hfol (fun g _ _ => congrFun hf g) hi

lemma creates (name : Name) {length : Int} (hl : length < 2147483648) :
    (∃ ok t b', filesysCreate s name length = .ok (ok, t) ∧ Live t b' held ∧ Creates s t b b' name length ok) ∨
      length < 0 ∧ filesysCreate s name length = .error (.assertion .inodeCreateLength) := by
  rcases h.inv.creates name hl with ⟨ok, t, b', hrun, hinv, hc⟩ | herr
  swap
  · exact .inr herr
  refine .inl ⟨ok, t, b', hrun, h.keep hinv hc.file hc.follows ?_, hc⟩
  cases ok with
  | false => rw [(hc.refused rfl).1]
  | true =>
    obtain ⟨_, o, k, hb, _⟩ := hc.made rfl
    rw [hb]
    rfl

lemma unlinks (name : Name) :
    ∃ ok t b', filesysRemove s name = .ok (ok, t) ∧ Live t b' held ∧ Removes s t b b' name ok := by
  obtain ⟨ok, t, b', hrun, hinv, hr⟩ := h.inv.unlinks name
  refine ⟨ok, t, b', hrun, h.keep hinv hr.file hr.follows ?_, hr⟩
  cases ok with
  | false => rw [(hr.refused rfl).2]
  | true =>
    obtain ⟨k, _, hb | ⟨o, _, hb, _⟩⟩ := hr.left rfl
    · rw [hb]
    · rw [hb]
      rfl

lemma add_handle (hh : Handle s t f p) (hi : Inv t b (p :: held.map Prod.snd)) (hfol : Follows s t)
    (hp : ∀ i, t.inode p = some i → i.sector ≠ freeMapSector ∧ i.sector ≠ rootDirSector) :
    Live t b ((f, p) :: held) := by
  have hc : Counted t ((f, p) :: held) [b.fmInode] := h.counted.add_handle hh hfol hi.table.toRefs
  refine ⟨hi, hc.keys, ?_, hc.file, fun g q hm i hi => ?_, hc.denied⟩
  · rw [List.map_cons, List.mem_cons, not_or]
    have hlt := h.inv.file_lt_next
    have hge := hh.fresh
    exact ⟨by omega, h.fm⟩
  · rcases List.mem_cons.mp hm with he | hm
    · cases he
      exact hp i hi
    · exact h.regular_of_follows hfol hm hi

lemma opensNamed (name : Name) :
    ∃ r t, filesysOpen s name = .ok (r, t) ∧ Inv.Opens s t b name r (held.map Prod.snd) ∧
      (r = none → Live t b held) ∧
      ∀ f, r = some f → ∃ p k o i, Live t b ((f, p) :: held) ∧ Handle s t f p ∧ k < rootEntries ∧
        Found (s.slot b.root k) name ∧ o ∈ b.files ∧ o.sector = entrySector (s.slot b.root k) ∧
        t.inode p = some i ∧ i.sector = o.sector := by
  obtain ⟨r, t, hrun, ho, _⟩ := h.inv.opensNamed name
  refine ⟨r, t, hrun, ho, fun hr => ?_, fun f hr => ?_⟩
  · obtain ⟨hf, hinv, _⟩ := ho.missed hr
    exact h.keep hinv hf ho.follows rfl
  · obtain ⟨p, k, o, i, hh, hinv, hk, hname, hof, hos, hi, hs⟩ := ho.opened f hr
    refine ⟨p, k, o, i, h.add_handle hh hinv ho.follows fun j hj => ?_, hh, hk, hname, hof, hos, hi, hs⟩
    cases hi.symm.trans hj
    rw [hs]
    exact Books.sector_ne h.inv.sound.exclusive hof

section

variable (hm : (f, p) ∈ held)

include hm

lemma reopens : ∃ r t, fileReopen s f = .ok (r, t) ∧ SameDisk s t ∧ Follows s t ∧
      (r = none → s.mallocs ≠ [] ∧ t.file = s.file ∧ Live t b held) ∧
      ∀ g, r = some g → Live t b ((g, p) :: held) ∧ Handle s t g p ∧
        ∃ i j, s.inode p = some i ∧ t.inode p = some j ∧ j.sector = i.sector := by
  obtain ⟨o, x, i, _, hon⟩ := h.openOn hm
  obtain rfl := hon.ptr
  have hcount := h.inv.table.counted x.inode i hon.inode
  have h₁ := h.inv.reopened hon.inode
  obtain ⟨r, t, hrun, hd, hfol, hnone, hsome⟩ := h₁.opensFile (Fs.setInode_inode_self _ _ _) fun _ => by
    show i.openCnt + 1 - 1 ≠ 0
    omega
  have hd' := (SameDisk.setInode s x.inode _).trans hd
  have hfol' := (Follows.setInode (j := { i with openCnt := i.openCnt + 1 }) hon.inode rfl rfl).trans hfol
  refine ⟨r, t, ?_, hd', hfol', fun hr => ?_, fun g hr => ?_⟩
  · simp only [fileReopen, fileAt_eq hon.file, bind_ok, inodeReopen, inodeAt_eq hon.inode, pure_eq_ok, hrun]
  · obtain ⟨hne, hf, hinv⟩ := hnone hr
    exact ⟨hne, hf, h.keep hinv hf hfol' rfl⟩
  · obtain ⟨hinv, hh, hi⟩ := hsome g hr
    have hj : t.inode x.inode = some { i with openCnt := i.openCnt + 1 } := by
      rw [hi, Fs.setInode_inode_self]
    refine ⟨h.add_handle ⟨hh.fresh, hh.file, hh.others⟩ hinv hfol' fun j hj' => ?_,
      ⟨hh.fresh, hh.file, hh.others⟩, i, _, hon.inode, hj, rfl⟩
    cases hj.symm.trans hj'
    exact h.regular f _ hm i hon.inode

omit h in
lemma erase_snd_perm : ((held.map Prod.snd).erase p).Perm ((held.erase (f, p)).map Prod.snd) := by
  have hp := (((List.perm_cons_erase hm).map Prod.snd).erase p)
  rwa [List.map_cons, List.erase_cons_head] at hp

lemma notMem_erase : f ∉ (held.erase (f, p)).map Prod.fst :=
  key_notMem_erase h.keys hm

lemma setFile_inv (x : Option File) : Inv (s.setFile f x) b (held.map Prod.snd) := by
  apply h.inv.refile le_rfl
  · intro g hg
    have hlt := (h.lt_next hm).1
    rw [if_neg (by omega)]
    exact (h.inv.table.fresh g hg).2
  · rw [if_neg (Ne.symm (h.ne_fm hm))]
    exact h.inv.fmHandle

lemma moved (hx : s.file f = some x) (pos : Nat) : Live (s.setFile f (some { x with pos })) b held where
  inv := h.setFile_inv hm _
  keys := h.keys
  fm := h.fm
  file g q hg := by
    obtain ⟨y, hy, hp⟩ := h.file f p hm
    cases hx.symm.trans hy
    exact h.counted.setFile_file (x := { x with pos }) hm hp hg
  regular := h.regular
  denied q i hi := by
    have hself : s.denies f = x.denyWrite := by rw [Fs.denies, hx, Option.any_some]
    rw [deniers_setFile h.keys hm, h.denied q i hi, deniers_split s hm, hself]

lemma remarks {deny : Bool} (hx : s.file f = some x) (hr : Remarks s f p x deny t) : Live t b held := by
  have hc := hr.counted h.counted hm hx
  cases hr with
  | kept => exact h
  | @recounted i n hi hn =>
    refine ⟨?_, h.keys, h.fm, hc.file, fun g q hg j hj => ?_, hc.denied⟩
    · have hcnt := h.inv.table.counted p i hi
      exact Inv.reset (h.setFile_inv hm _) hi rfl rfl ((h.setFile_inv hm _).table.set hi
        { i with denyWriteCnt := n } rfl rfl (.inr (h.regular f p hm i hi)) hcnt.1 hcnt.2 fun _ _ => rfl)
    · rw [Fs.setInode_inode] at hj
      split at hj
      · next hq =>
        subst hq
        cases hj
        exact h.regular g q hg i hi
      · exact h.regular g q hg j hj

lemma deniesWrite (hx : s.file f = some x) :
    ∃ t, fileDenyWrite s f = .ok t ∧ Live t b held ∧ Marks s t f { x with denyWrite := true } := by
  obtain ⟨t, hrun, hr⟩ := h.counted.deniesWrite hm hx
  exact ⟨t, hrun, h.remarks hm hx hr, hr.marks hx⟩

lemma allowsWrite (hx : s.file f = some x) :
    ∃ t, fileAllowWrite s f = .ok t ∧ Live t b held ∧ Marks s t f { x with denyWrite := false } := by
  obtain ⟨t, hrun, hr⟩ := h.counted.allowsWrite hm hx
  exact ⟨t, hrun, h.remarks hm hx hr, hr.marks hx⟩

lemma closes_allowing (hd : s.denies f = false) :
    ∃ t b', inodeClose s (some p) = .ok t ∧ Live (t.setFile f none) b' (held.erase (f, p)) ∧
      Steady s t b ∧ Follows s t ∧ t.file = s.file ∧ Inv.Settles s b b' p := by
  obtain ⟨t, b', hclose, hinv, hst, hf, hfol, _, hset⟩ :=
    h.inv.closes (List.mem_map.mpr ⟨(f, p), hm, rfl⟩)
  have hb : b'.fmFile = b.fmFile ∧ b'.fmInode = b.fmInode := by
    rcases hset with rfl | ⟨o, _, rfl, _⟩
    · exact ⟨rfl, rfl⟩
    · exact ⟨rfl, rfl⟩
  have hinv' : Inv (t.setFile f none) b' ((held.erase (f, p)).map Prod.snd) := by
    apply (hinv.perm (erase_snd_perm hm)).refile le_rfl
    · intro g hg
      by_cases hgf : g = f
      · rw [if_pos hgf]
      · rw [if_neg hgf]
        exact (hinv.table.fresh g hg).2
    · rw [if_neg (by rw [hb.1]; exact Ne.symm (h.ne_fm hm))]
      exact hinv.fmHandle
  have hrefs : Refs (t.setFile f none) ([b.fmInode] ++ (held.erase (f, p)).map Prod.snd) :=
    hb.2 ▸ hinv'.table.toRefs
  have hc := h.counted.drop hm hd hf hfol hrefs
  refine ⟨t, b', hclose, ⟨hinv', hc.keys, ?_, hc.file, fun g q hg j hj => ?_, hc.denied⟩, hst, hfol, hf, hset⟩
  · rw [hb.1]
    exact fun hx => h.fm ((List.erase_sublist.map _).subset hx)
  · exact h.regular_of_follows hfol (List.mem_of_mem_erase hg) hj

lemma closes : ∃ t b', fileClose s (some f) = .ok t ∧ Live t b' (held.erase (f, p)) ∧ Steady s t b ∧
      Tracks s t ∧ (∀ g, g ≠ f → t.file g = s.file g) ∧ b'.root = b.root ∧ b'.fm = b.fm ∧
      (b' = b ∨ ∃ o ∈ b.files, b' = b.erase o) := by
  obtain ⟨x, hx, rfl⟩ := h.file f p hm
  obtain ⟨u, hallow, hu, hmark⟩ := h.allowsWrite hm hx
  have hfile : u.file f = some { x with denyWrite := false } := by
    rw [hmark.file, Fs.setFile_file, if_pos rfl]
  have hd : u.denies f = false := by rw [Fs.denies, hfile, Option.any_some]
  obtain ⟨t, b', hclose, hlive, hst, hfol, hf, hset⟩ := hu.closes_allowing hm hd
  have hb : b' = b ∨ ∃ o ∈ b.files, b' = b.erase o := by
    rcases hset with rfl | ⟨o, ho, rfl, _⟩
    · exact .inl rfl
    · exact .inr ⟨o, ho, rfl⟩
  have hst' := (hmark.disk.steady b).trans hst
  refine ⟨t.setFile f none, b', ?_, hlive, ⟨⟨hst'.files, hst'.quiet, hst'.synced⟩, hst'.root⟩, ?_, ?_, ?_, ?_, hb⟩
  · simp only [fileClose, hallow, fileAt_eq hfile, bind_ok, hclose, pure_eq_ok]
  · exact hmark.sectors.trans (.of_follows ⟨hfol.next, hfol.kept⟩)
  · intro g hg
    rw [Fs.setFile_file, if_neg hg, hf, hmark.file, Fs.setFile_file, if_neg hg]
  · rcases hb with rfl | ⟨o, _, rfl⟩
    · rfl
    · rfl
  · rcases hb with rfl | ⟨o, _, rfl⟩
    · rfl
    · rfl

lemma closes_named {k : Nat} (hk : k < rootEntries) (hu : entryInUse (s.slot b.root k) = true)
    (hs : ∀ i, s.inode p = some i → i.sector = entrySector (s.slot b.root k)) :
    ∃ t, fileClose s (some f) = .ok t ∧ Live t b (held.erase (f, p)) ∧ SameDisk s t := by
  obtain ⟨x, hx, rfl⟩ := h.file f p hm
  obtain ⟨u, hallow, hlive, hmark⟩ := h.allowsWrite hm hx
  have hfile : u.file f = some { x with denyWrite := false } := by
    rw [hmark.file, Fs.setFile_file, if_pos rfl]
  have hd : u.denies f = false := by rw [Fs.denies, hfile, Option.any_some]
  have hslot : u.slot b.root k = s.slot b.root k := by rw [Fs.slot, Fs.slot, hmark.disk.disk]
  have hkept : ∀ j, u.inode x.inode = some j → j.removed = false := by
    intro j hj
    obtain ⟨i, hi, hij⟩ := hmark.tracks _ j hj
    apply eq_false_of_ne_true
    intro hr
    have hgone := (hlive.inv.names.gone _ j hj hr).2 k hk
    rw [hslot] at hgone
    exact hgone hu ((hs i hi).symm.trans hij)
  obtain ⟨t, b', hclose, hlive', _, _, _, hset⟩ := hlive.closes_allowing hm hd
  have hp : x.inode ∈ held.map Prod.snd := List.mem_map.mpr ⟨(f, x.inode), hm, rfl⟩
  obtain ⟨j, hj⟩ := Option.ne_none_iff_exists'.mp (hlive.inv.table.live _ (List.mem_cons_of_mem _ hp))
  obtain ⟨t', hclose', _, hdisk, _⟩ := hlive.inv.closes_kept hj hp (hkept j hj)
  cases hclose'.symm.trans hclose
  obtain rfl : b' = b := by
    rcases hset with hb | ⟨o, _, _, i, hi, _, hr, _⟩
    · exact hb
    · rw [hkept i hi] at hr
      cases hr
  refine ⟨t.setFile f none, ?_, hlive', hmark.disk.trans ⟨hdisk.disk, hdisk.freeMap, hdisk.freeMapFile,
    hdisk.sectors, hdisk.quiet⟩⟩
  simp only [fileClose, hallow, fileAt_eq hfile, bind_ok, hclose, pure_eq_ok]

end

lemma opens_first {name : Name} (hrun : filesysOpen s name = .ok (some f, t)) :
    ∃ p k o i, Live t b ((f, p) :: held) ∧ SameDisk s t ∧ Inv.FirstFound s b name k ∧ o ∈ b.files ∧
      o.sector = entrySector (s.slot b.root k) ∧
      OpenOn t f p o { inode := p, pos := 0, denyWrite := false } i := by
  obtain ⟨r, u, hrun', ho, _, hsome⟩ := h.opensNamed name
  cases hrun.symm.trans hrun'
  obtain ⟨p, _, _, _, hlive, hh, _⟩ := hsome f rfl
  obtain ⟨_, _, hrun'', _, hfirst⟩ := h.inv.opensNamed name
  cases hrun.symm.trans hrun''
  obtain ⟨k, j, hk, hj, hs⟩ := hfirst f p rfl hh
  obtain ⟨o, x, i, hof, hon⟩ := hlive.openOn List.mem_cons_self
  cases hj.symm.trans hon.inode
  cases hh.file.symm.trans hon.file
  exact ⟨p, k, o, j, hlive, ho.disk, hk, hof, hon.sector.symm.trans hs, hon⟩

lemma with_mallocs (ms : List Bool) : Live { s with mallocs := ms } b held :=
  h.keep (h.inv.with_mallocs ms) rfl (.of_sameTable (.with_map s s.freeMap s.disk ms)) rfl

omit h in
lemma read_content (s : Fs) {pos n : Nat} (h : n ≤ o.length - pos) :
    s.disk.read (o.base + pos) n = ((s.content o).drop pos).take n := by
  rw [Fs.content, Memory.drop_read, Memory.take_read, Nat.min_eq_left h]

lemma readsAt (ho : o ∈ b.files) (hon : OpenOn s f p o x i) (size : Int) (ofs : Nat) :
    ∃ n ms, inodeReadAt s p size ofs = .ok (((s.content o).drop ofs).take n, { s with mallocs := ms }) ∧
      Transfers false s.mallocs ms ofs n (min size.toNat (o.length - ofs)) := by
  obtain ⟨n, ms, hrun, ht⟩ :=
    inodeReadAt_eq (h.inv.sound.placed _ (Books.file_mem ho)) hon.inode hon.data size ofs
  have hle := ht.le
  refine ⟨n, ms, ?_, ht⟩
  rw [hrun, read_content s (by omega)]

omit h in
lemma length_slice (s : Fs) {ofs n total : Nat} (h : n ≤ min total (o.length - ofs)) :
    (((s.content o).drop ofs).take n).length = n := by
  rw [← read_content s (by omega), Memory.length_read]

lemma reads (hm : (f, p) ∈ held) (ho : o ∈ b.files) (hon : OpenOn s f p o x i) (size : Int) :
    ∃ n ms, fileRead s f size = .ok (((s.content o).drop x.pos).take n,
        Fs.setFile { s with mallocs := ms } f (some { x with pos := x.pos + n })) ∧
      Live (Fs.setFile { s with mallocs := ms } f (some { x with pos := x.pos + n })) b held ∧
      Transfers false s.mallocs ms x.pos n (min size.toNat (o.length - x.pos)) := by
  obtain rfl := hon.ptr
  obtain ⟨n, ms, hrun, ht⟩ := h.readsAt ho hon size x.pos
  refine ⟨n, ms, ?_, (h.with_mallocs ms).moved hm hon.file _, ht⟩
  simp only [fileRead, fileAt_eq hon.file, bind_ok, hrun, pure_eq_ok, length_slice s ht.le]

lemma written (ho : o ∈ b.files) {pos : Nat} {bs : List Byte}
    (hl : bs = [] ∨ pos + bs.length ≤ o.length) (ms : List Bool) :
    Live { s with disk := s.disk.write (o.base + pos) bs, mallocs := ms } b held ∧
      Fs.content { s with disk := s.disk.write (o.base + pos) bs, mallocs := ms } o =
        overlay (s.content o) pos bs ∧
      ∀ o' ∈ b.objs, o' ≠ o →
        Fs.content { s with disk := s.disk.write (o.base + pos) bs, mallocs := ms } o' = s.content o' := by
  rcases hl with rfl | hl
  · simp only [Memory.write_nil, overlay_nil]
    exact ⟨h.with_mallocs ms, rfl, fun _ _ _ => rfl⟩
  have hx := h.inv.sound.exclusive
  have hom := Books.file_mem ho
  have hc := confined_write s.disk hl
  have hother : ∀ o' ∈ b.objs, o' ≠ o →
      Fs.content { s with disk := s.disk.write (o.base + pos) bs, mallocs := ms } o' = s.content o' := by
    intro o' ho' hne
    apply Fs.content_eq_of_confined hc
    exact fun x hx' => extent_disjoint hx ho' hom hne hx'
  refine ⟨?_, Memory.read_write_within _ hl, hother⟩
  refine h.keep ?_ rfl (.of_sameTable (.with_map s s.freeMap _ ms)) rfl
  refine h.inv.step (.with_map s s.freeMap _ ms) rfl hc (fun o' ho' => sector_notMem_extent hx hom ho')
    (fun _ _ => id) (h.inv.names.congr ?_ fun _ j hj hr => ⟨j, hj, hr, rfl⟩)
  exact hother b.root b.root_mem (Ne.symm (Books.file_ne hx ho).2)

lemma writesAt (ho : o ∈ b.files) (hon : OpenOn s f p o x i) (buffer : List Byte) (size : Int) (ofs : Nat) :
    ∃ n t, inodeWriteAt s p buffer size ofs = .ok (n, t) ∧ Live t b held ∧ Writes s t b o ofs buffer n ∧
      n ≤ min (min size.toNat buffer.length) (o.length - ofs) := by
  by_cases hw : i.denyWriteCnt = 0
  · obtain ⟨n, ms, hrun, ht⟩ := inodeWriteAt_eq (h.inv.sound.placed _ (Books.file_mem ho)) hon.inode
      hon.data hw buffer size ofs
    have hle := ht.le
    have hl : buffer.take n = [] ∨ ofs + (buffer.take n).length ≤ o.length := by
      rw [List.length_take]
      by_cases hn : n = 0
      · exact .inl (by rw [hn, List.take_zero])
      · exact .inr (by omega)
    obtain ⟨h₁, hown, hothers⟩ := h.written ho hl ms
    exact ⟨n, _, hrun, h₁, ⟨.with_map s s.freeMap _ ms, rfl, fun hm => (ht.quiet hm).2, hown, hothers⟩, hle⟩
  · refine ⟨0, s, ?_, h, ⟨.refl s, rfl, id, ?_, fun _ _ _ => rfl⟩, Nat.zero_le _⟩
    · simp only [inodeWriteAt, inodeAt_eq hon.inode, bind_ok, if_pos hw, pure_eq_ok]
    · rw [List.take_zero, overlay_nil]

lemma writes (hm : (f, p) ∈ held) (ho : o ∈ b.files)
    (hon : OpenOn s f p o x i) (buffer : List Byte) (size : Int) :
    ∃ n t, fileWrite s f buffer size = .ok (n, t.setFile f (some { x with pos := x.pos + n })) ∧
      Live t b held ∧ Live (t.setFile f (some { x with pos := x.pos + n })) b held ∧ Writes s t b o x.pos buffer n ∧
      n ≤ min (min size.toNat buffer.length) (o.length - x.pos) := by
  obtain rfl := hon.ptr
  obtain ⟨n, t, hrun, hlive, hw, hle⟩ := h.writesAt ho hon buffer size x.pos
  refine ⟨n, t, ?_, hlive, hlive.moved hm (hw.table.file ▸ hon.file) _, hw, hle⟩
  simp only [fileWrite, fileAt_eq hon.file, bind_ok, hrun, pure_eq_ok]

lemma seeks (hm : (f, p) ∈ held) (hx : s.file f = some x) {pos : Int} (hp : 0 ≤ pos) :
    fileSeek s f pos = .ok (s.setFile f (some { x with pos := pos.toNat })) ∧
      Live (s.setFile f (some { x with pos := pos.toNat })) b held := by
  refine ⟨?_, h.moved hm hx pos.toNat⟩
  simp only [fileSeek, fileAt_eq hx, bind_ok, assertThat_pos hp, pure_eq_ok]

end Live

end Pintos.Filesys
