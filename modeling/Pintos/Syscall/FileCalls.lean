import Pintos.Filesys.Runs
import Pintos.Syscall.Confinement

/-! The calls that work on files: its open files stay those of the process' table. -/

namespace Pintos.Syscall

open Pintos.Foundation Pintos.Kernel Pintos.Filesys Pintos.Userprog Function

inductive FileCall
  | create (file : Name) (initialSize : Word)
  | remove (file : Name)
  | open (file : Name)
  | filesize (fd : Word)
  | read (fd : Word) (buffer : Nat) (size : Word)
  | write (fd : Word) (buffer : Option (List Byte)) (size : Word)
  | seek (fd position : Word)
  | tell (fd : Word)
  | close (fd : Word)

def FileCall.run : FileCall → SysM Served
  | .create file initialSize => do return .eax (← Syscall.create file initialSize)
  | .remove file => do return .eax (← Syscall.remove file)
  | .open file => do return .eax (← Syscall.open file)
  | .filesize fd => do return .eax (← Syscall.filesize fd.toInt)
  | .read fd buffer size => do return .eax (← Syscall.read fd.toInt buffer size)
  | .write fd buffer size => do return .eax (← Syscall.write fd.toInt buffer size)
  | .seek fd position => do
    Syscall.seek fd.toInt position
    return .unchanged
  | .tell fd => do return .eax (← Syscall.tell fd.toInt)
  | .close fd => do
    Syscall.close fd.toInt
    return .unchanged

def Kernel.withMallocs (k : Kernel) (mallocs : List Bool) : Kernel := { k with fs := { k.fs with mallocs } }

def left (s : Fs) (f : Nat) : Nat :=
  ((s.file f).bind fun x => (s.inode x.inode).map fun i => i.data.length.toNat - x.pos).getD 0

def room (s : Fs) (f : Nat) : Nat :=
  ((s.file f).bind fun x => (s.inode x.inode).map fun i =>
    if i.denyWriteCnt = 0 then i.data.length.toNat - x.pos else 0).getD 0

section Files

variable {s : Fs} {held : List Nat} {f : Nat}

lemma fits_one_iff {map : Bitmap} : (∃ x, map.Fits false 1 x) ↔ ∃ x < map.bitCnt, map.bit x = false := by
  constructor
  · rintro ⟨x, hle, hbit⟩
    exact ⟨x, by omega, hbit 0 (by omega)⟩
  · rintro ⟨x, hlt, hbit⟩
    exact ⟨x, by omega, fun j hj => by rw [Nat.lt_one_iff.mp hj]; exact hbit⟩

lemma toInt_neg_iff (w : Word) : w.toInt < 0 ↔ 2 ^ 31 ≤ w.toNat := by
  have hlt := w.isLt
  rw [BitVec.toInt_eq_toNat_cond]
  split <;> omega

variable (h : Good ⟨s, held⟩)

include h

lemma create_negative {size : Int} (hneg : size < 0) (file : Name) :
    ((∀ x, ¬ s.freeMap.Fits false 1 x) → ∃ t, filesysCreate s file size = .ok (false, t)) ∧
      ((∃ x, s.freeMap.Fits false 1 x) → s.mallocs = [] →
        filesysCreate s file size = .error (.assertion .inodeCreateLength)) := by
  obtain ⟨b, handles, hlive, _⟩ := h
  obtain ⟨r, t₁, hopen, hd, _, _, hnone, hsome⟩ := hlive.inv.opensRoot
  rw [filesysCreate, hopen, bind_ok]
  cases r with
  | none => exact ⟨fun _ => ⟨t₁, rfl⟩, fun _ hq => absurd hq (hnone rfl).1⟩
  | some dir =>
    obtain ⟨hinv, hroot, _⟩ := hsome dir rfl
    obtain ⟨r, c, bs, ms, halloc, ha, hinv', _⟩ := hinv.allocates 1
    have hiff := ha.some_iff
    rw [hd.freeMap] at hiff
    simp only [halloc, bind_ok]
    cases r with
    | none =>
      refine ⟨fun _ => ?_, fun hfree hq => absurd rfl (hiff.mpr ⟨hfree, .inr (.inr ?_)⟩)⟩
      · obtain ⟨t, hclose, _⟩ := hinv'.closesRoot (hroot.congr rfl)
        exact ⟨t, bind_of_ok hclose _⟩
      · rw [hd.quiet hq]
        rfl
    | some x =>
      refine ⟨fun hfull => ?_, fun _ _ => ?_⟩
      · obtain ⟨y, hy⟩ := (hiff.mp (Option.some_ne_none x)).1
        exact absurd hy (hfull y)
      · simp only [inodeCreate_negative _ x hneg]
        rfl

lemma good_create (file : Name) (size : Word) :
    (∃ ok t, filesysCreate s file size.toInt = .ok (ok, t) ∧ Good ⟨t, held⟩) ∨
      2 ^ 31 ≤ size.toNat ∧ (∃ x < s.freeMap.bitCnt, s.freeMap.bit x = false) ∧
        filesysCreate s file size.toInt = .error (.assertion .inodeCreateLength) := by
  obtain ⟨b, handles, hlive, hk⟩ := id h
  rcases hlive.leads_create file ⟨size.toInt, BitVec.le_toInt size, BitVec.toInt_lt⟩ with
    ⟨ok, t, hrun, ht⟩ | ⟨hneg, hrun⟩
  · obtain ⟨b', hlive', _⟩ := ht.live
    exact .inl ⟨ok, t, hrun, b', handles, hlive', hk⟩
  · refine .inr ⟨(toInt_neg_iff size).mp hneg, fits_one_iff.mp ?_, hrun⟩
    by_contra hfull
    obtain ⟨t, hok⟩ := (create_negative h hneg file).1 fun x hx => hfull ⟨x, hx⟩
    cases hrun.symm.trans hok

lemma good_remove (file : Name) : ∃ ok t, filesysRemove s file = .ok (ok, t) ∧ Good ⟨t, held⟩ := by
  obtain ⟨b, handles, hlive, hk⟩ := h
  obtain ⟨ok, t, hrun, ht⟩ := hlive.leads_remove file
  obtain ⟨b', hlive', _⟩ := ht.live
  exact ⟨ok, t, hrun, b', handles, hlive', hk⟩

lemma good_open (file : Name) : ∃ r t, filesysOpen s file = .ok (r, t) ∧ Good ⟨t, r.toList ++ held⟩ ∧
      (r ≠ none → ∃ e ∈ s.entries, Found e file) ∧
      (s.mallocs = [] → (∃ e ∈ s.entries, Found e file) → r ≠ none) := by
  obtain ⟨b, handles, hlive, hk⟩ := h
  obtain ⟨r, t, hrun, ho, hnone, hsome⟩ := hlive.opensNamed file
  have hentry : (∃ e ∈ s.entries, Found e file) ↔ ∃ l < rootEntries, Found (s.slot b.root l) file := by
    constructor
    · rintro ⟨e, he, hfound⟩
      obtain ⟨l, hl, rfl, _⟩ := hlive.inv.mem_entries he
      exact ⟨l, hl, hfound⟩
    · rintro ⟨l, hl, hfound⟩
      refine ⟨_, ?_, hfound⟩
      rw [hlive.inv.entries_eq, List.mem_filter, List.mem_map]
      exact ⟨⟨l, List.mem_range.mpr hl, rfl⟩, hfound.1⟩
  rw [hentry]
  refine ⟨r, t, hrun, ?_⟩
  cases r with
  | none =>
    refine ⟨⟨b, handles, hnone rfl, hk⟩, fun hne => absurd rfl hne, ?_⟩
    rintro hq ⟨l, hl, hfound⟩
    exact absurd hfound ((ho.missed rfl).2.2 hq l hl)
  | some f =>
    obtain ⟨p, l, o, i, hlive', _, hl, hfound, _⟩ := hsome f rfl
    exact ⟨⟨b, (f, p) :: handles, hlive', congrArg (f :: ·) hk⟩, fun _ => ⟨l, hl, hfound⟩,
      fun _ _ => Option.some_ne_none f⟩

lemma good_nodup : held.Nodup := by
  obtain ⟨b, handles, hlive, rfl : handles.map Prod.fst = held⟩ := h
  exact hlive.keys

variable (hf : f ∈ held)

include hf

lemma good_handle : ∃ b handles p, Live s b handles ∧ handles.map Prod.fst = held ∧ (f, p) ∈ handles := by
  obtain ⟨b, handles, hlive, rfl : handles.map Prod.fst = held⟩ := h
  obtain ⟨⟨g, p⟩, hm, rfl⟩ := List.mem_map.mp hf
  exact ⟨b, handles, p, hlive, rfl, hm⟩

lemma good_length : ∃ n, fileLength s f = .ok n := by
  obtain ⟨b, handles, p, hlive, hk, hm⟩ := good_handle h hf
  obtain ⟨o, x, i, _, hon⟩ := hlive.openOn hm
  refine ⟨i.data.length, ?_⟩
  rw [fileLength, fileAt_eq hon.file, bind_ok, hon.ptr, inodeAt_eq hon.inode]
  rfl

lemma good_tell : ∃ n, fileTell s f = .ok n := by
  obtain ⟨b, handles, p, hlive, hk, hm⟩ := good_handle h hf
  obtain ⟨x, hx, _⟩ := hlive.file f p hm
  exact ⟨x.pos, by rw [fileTell, fileAt_eq hx]; rfl⟩

variable {x : File} {i : Inode} {p : Nat} {o : Obj}

omit h hf in
lemma left_eq (hon : OpenOn s f p o x i) :
    left s f = o.length - x.pos := by
  obtain rfl := hon.ptr
  simp only [left, hon.file, hon.inode, Option.bind_some, Option.map_some, Option.getD_some, hon.data, Obj.data,
    Int.toNat_natCast]

omit h hf in
lemma room_eq (hon : OpenOn s f p o x i) :
    room s f = if i.denyWriteCnt = 0 then o.length - x.pos else 0 := by
  obtain rfl := hon.ptr
  simp only [room, hon.file, hon.inode, Option.bind_some, Option.map_some, Option.getD_some, hon.data, Obj.data,
    Int.toNat_natCast]

lemma good_read (size : Int) :
    ∃ bs t, fileRead s f size = .ok (bs, t) ∧ Good ⟨t, held⟩ ∧ bs.length ≤ min size.toNat (left s f) ∧
      (s.mallocs = [] → bs.length = min size.toNat (left s f)) := by
  obtain ⟨b, handles, p, hlive, hk, hm⟩ := good_handle h hf
  obtain ⟨o, x, i, ho, hon⟩ := hlive.openOn hm
  obtain ⟨n, ms, hrun, hlive', ht⟩ := hlive.reads hm ho hon size
  rw [← left_eq hon] at ht
  have hlen : (((s.content o).drop x.pos).take n).length = n := by
    have hle := ht.le
    rw [left_eq hon] at hle
    rw [List.length_take, List.length_drop, Fs.content, Memory.length_read]
    omega
  refine ⟨_, _, hrun, ⟨b, handles, hlive', hk⟩, ?_, fun hq => ?_⟩
  · rw [hlen]
    exact ht.le
  · rw [hlen]
    exact (ht.quiet hq).1

lemma good_seek (position : Word) :
    (position.toNat < 2 ^ 31 ∧ ∃ t, fileSeek s f position.toInt = .ok t ∧ Good ⟨t, held⟩) ∨
      2 ^ 31 ≤ position.toNat ∧ fileSeek s f position.toInt = .error (.assertion .fileSeekPos) := by
  obtain ⟨b, handles, p, hlive, hk, hm⟩ := good_handle h hf
  obtain ⟨x, hx, _⟩ := hlive.file f p hm
  rcases Nat.lt_or_ge position.toNat (2 ^ 31) with hlt | hge
  · have hpos : 0 ≤ position.toInt := by
      by_contra hneg
      exact absurd ((toInt_neg_iff position).mp (by omega)) (by omega)
    obtain ⟨hrun, hlive'⟩ := hlive.seeks hm hx hpos
    exact .inl ⟨hlt, _, hrun, b, handles, hlive', hk⟩
  · have hneg := (toInt_neg_iff position).mpr hge
    refine .inr ⟨hge, ?_⟩
    rw [fileSeek, fileAt_eq hx, bind_ok, assertThat_neg (by omega), bind_error]

lemma good_close : ∃ t, fileClose s (some f) = .ok t ∧ Good ⟨t, held.erase f⟩ := by
  obtain ⟨b, handles, p, hlive, hk, hm⟩ := good_handle h hf
  obtain ⟨t, hrun, ht⟩ := hlive.leads_close hm
  obtain ⟨b', hlive', _⟩ := ht.live
  exact ⟨t, hrun, b', _, hlive', by rw [map_erase_fst hlive.keys hm, hk]⟩

omit h hf in
lemma fileWrite_eq (hp : o.start + o.cnt ≤ s.sectors)
    (hon : OpenOn s f p o x i) (bytes : List Byte) {size : Int} (hsize : size ≤ bytes.length) :
    ∃ n ms, fileWrite s f bytes size = .ok (n, Fs.setFile
        { s with disk := s.disk.write (o.base + x.pos) (bytes.take n), mallocs := ms } f
        (some { x with pos := x.pos + n })) ∧ n ≤ min size.toNat (room s f) ∧
      (s.mallocs = [] → n = min size.toNat (room s f)) := by
  obtain rfl := hon.ptr
  by_cases hw : i.denyWriteCnt = 0
  · obtain ⟨n, ms, hrun, ht⟩ := inodeWriteAt_eq hp hon.inode hon.data hw bytes size x.pos
    rw [Nat.min_eq_left (show size.toNat ≤ bytes.length by omega)] at ht
    rw [room_eq hon, if_pos hw]
    refine ⟨n, ms, ?_, ht.le, fun hq => (ht.quiet hq).1⟩
    simp only [fileWrite, fileAt_eq hon.file, bind_ok, hrun, pure_eq_ok]
  · rw [room_eq hon, if_neg hw, Nat.min_zero]
    refine ⟨0, s.mallocs, ?_, le_rfl, fun _ => rfl⟩
    simp only [fileWrite, fileAt_eq hon.file, bind_ok, inodeWriteAt, inodeAt_eq hon.inode, if_pos hw, pure_eq_ok,
      List.take_zero, Memory.write_nil]

lemma good_write (bytes : List Byte) (size : Int) :
    ∃ n t, fileWrite s f bytes size = .ok (n, t) ∧ Good ⟨t, held⟩ ∧ (size ≤ bytes.length →
      n ≤ min size.toNat (room s f) ∧ (s.mallocs = [] → n = min size.toNat (room s f))) := by
  obtain ⟨b, handles, p, hlive, hk, hm⟩ := good_handle h hf
  obtain ⟨o, x, i, ho, hon⟩ := hlive.openOn hm
  obtain ⟨n, t, hrun, ht⟩ := hlive.leads_write hm bytes size
  obtain ⟨b', hlive', _⟩ := ht.live
  refine ⟨n, t, hrun, ⟨b', handles, hlive', hk⟩, fun hsize => ?_⟩
  obtain ⟨m, ms, hrun', hcount⟩ := fileWrite_eq (hlive.inv.sound.placed o (Books.file_mem ho)) hon bytes hsize
  cases hrun.symm.trans hrun'
  exact hcount

end Files

/-- The files of the process are open in the kernel, each under one descriptor. -/
structure Sound (k : Kernel) (g : Int → Option Nat) : Prop where
  good : Good ⟨k.fs, k.held⟩
  tracks : Tracks k.files g
  held : ∀ fd f, g fd = some f → f ∈ k.held
  inj : ∀ fd fd' f, g fd = some f → g fd' = some f → fd = fd'

def Kernel.supply (k : Kernel) (fd size : Word) : Nat :=
  if fd.toInt = 0 then size.toNat
  else
    match processGetFile k.files fd.toInt with
    | .ok (some f) => min size.toInt.toNat (left k.fs f)
    | _ => 0

def Kernel.demand (k : Kernel) (fd size : Word) : Nat :=
  if fd.toInt = 1 then size.toNat
  else
    match processGetFile k.files fd.toInt with
    | .ok (some f) => min size.toInt.toNat (room k.fs f)
    | _ => 0

/-- Whether what is written is copied first, from the start of the buffer on. -/
def Kernel.copies (k : Kernel) (fd size : Word) : Bool :=
  if fd.toInt = 1 then false
  else
    match processGetFile k.files fd.toInt with
    | .ok (some f) => !startsWhole k.fs f size.toInt.toNat
    | _ => false

def FileCall.Stops (k : Kernel) : FileCall → Stop → Prop
  | .create _ initialSize, e => 2 ^ 31 ≤ initialSize.toNat ∧
    (∃ x < k.fs.freeMap.bitCnt, k.fs.freeMap.bit x = false) ∧ e = .panicked (.assertion .inodeCreateLength)
  | .open file, e => 2 + fdSlots ≤ k.files.nextFd ∧ (∃ entry ∈ k.fs.entries, Found entry file) ∧ e = .tableOverrun
  | .read fd buffer size, e => ¬ k.Writable ⟨buffer, k.supply fd size⟩ ∧ e = .panicked .kernelBug
  | .write fd buffer size, e =>
    buffer = none ∧ if k.copies fd size then 0 < k.demand fd size ∧ e = .panicked (.assertion .memcpySrc)
      else ¬ k.Readable ⟨0, k.demand fd size⟩ ∧ e = .panicked .kernelBug
  | .seek fd position, e => 2 ^ 31 ≤ position.toNat ∧ processGetFile k.files fd.toInt ≠ .ok none ∧
    e = .panicked (.assertion .fileSeekPos)
  | .tell fd, e => processGetFile k.files fd.toInt = .ok none ∧ e = .exited (-1)
  | .remove _, _ | .filesize _, _ | .close _, _ => False

def FileCall.Runs (k : Kernel) (c : FileCall) : Prop :=
  Ends c.run k (fun _ t => ∃ g, Sound t g) fun e _ => c.Stops k e

section Steps

variable {k t : Kernel} {g : Int → Option Nat}

lemma Sound.with_mallocs (h : Sound k g) (ms : List Bool) : Sound (k.withMallocs ms) g := by
  obtain ⟨⟨b, handles, hlive, hk⟩, htracks, hheld, hinj⟩ := h
  exact ⟨⟨b, handles, hlive.with_mallocs ms, hk⟩, htracks, hheld, hinj⟩

lemma Sound.congr (h : Sound k g) (hfs : t.fs = k.fs) (hheld : t.held = k.held) (hfiles : t.files = k.files) :
    Sound t g := by
  obtain ⟨hgood, htracks, hin, hinj⟩ := h
  rw [← hfs, ← hheld] at hgood
  rw [← hfiles] at htracks
  exact ⟨hgood, htracks, fun fd f hf => hheld ▸ hin fd f hf, hinj⟩

lemma Looked.sound (h : Looked k t) (hs : Sound k g) : Sound t g :=
  hs.congr (congrArg Kernel.fs h.rest :) (congrArg Kernel.held h.rest :) (congrArg Kernel.files h.rest :)

variable {α : Type} {E : Stop → Kernel → Prop} {d : Descriptors Nat} {s : Fs}
  {x : Fs → Except Panic (α × Fs)} {Q : α → Kernel → Prop}

lemma ends_onFs {a : α}
    (hx : x k.fs = .ok (a, s)) : Ends (onFs x) k Q E ↔ Q a { k with fs := s } := by
  simp only [onFs, ends_bind, ends_get, hx]
  rfl

lemma ends_onFs_error {e : Panic}
    (hx : x k.fs = .error e) : Ends (onFs x) k Q E ↔ E (.panicked e) k := by
  simp only [onFs, ends_bind, ends_get, hx]
  rfl

variable (h : Sound k g)

include h

lemma ends_getFile (fd : Int) {Q : Option Nat → Kernel → Prop} : Ends (getFile fd) k Q E ↔ Q (g fd) k := by
  simp only [getFile, onFiles, ends_bind, ends_get, h.tracks.processGetFile_eq fd, bind_ok]
  rfl

lemma Sound.getFile_eq_none {fd : Int} : processGetFile k.files fd = .ok none ↔ g fd = none := by
  rw [h.tracks.processGetFile_eq, Except.ok.injEq]

lemma Sound.runs_create (file : Name) (size : Word) : (FileCall.create file size).Runs k := by
  simp only [FileCall.Runs, FileCall.run, Syscall.create, ends_bind, ends_pure]
  rcases good_create h.good file size with ⟨ok, s, hrun, hgood⟩ | ⟨hsize, hfree, hrun⟩
  · rw [ends_onFs hrun]
    exact ⟨g, hgood, h.tracks, h.held, h.inj⟩
  · rw [ends_onFs_error hrun]
    exact ⟨hsize, hfree, rfl⟩

lemma Sound.runs_remove (file : Name) : (FileCall.remove file).Runs k := by
  simp only [FileCall.Runs, FileCall.run, Syscall.remove, ends_bind, ends_pure]
  obtain ⟨ok, s, hrun, hgood⟩ := good_remove h.good file
  rw [ends_onFs hrun]
  exact ⟨g, hgood, h.tracks, h.held, h.inj⟩

lemma Sound.add {f : Nat} (hgood : Good ⟨s, f :: k.held⟩) (hd : Tracks d (update g k.files.nextFd (some f))) :
    Sound { k with fs := s, held := f :: k.held, files := d } (update g k.files.nextFd (some f)) := by
  have hnew : f ∉ k.held := (List.nodup_cons.mp (good_nodup hgood)).1
  refine ⟨hgood, hd, fun fd f' hf => ?_, fun fd fd' f' hf hf' => ?_⟩
  · rw [update_apply] at hf
    split at hf
    · cases hf
      exact List.mem_cons_self
    · exact List.mem_cons_of_mem _ (h.held fd f' hf)
  · rw [update_apply] at hf hf'
    split at hf
    · next he =>
      cases hf
      split at hf'
      · next he' => rw [he, he']
      · exact absurd (h.held fd' f hf') hnew
    · split at hf'
      · cases hf'
        exact absurd (h.held fd f hf) hnew
      · exact h.inj fd fd' f' hf hf'

lemma Sound.runs_open (file : Name) : (FileCall.open file).Runs k := by
  simp only [FileCall.Runs, FileCall.run, Syscall.open, ends_bind, ends_modify, ends_pure]
  obtain ⟨r, s, hrun, hgood, hfound, _⟩ := good_open h.good file
  rw [ends_onFs hrun]
  cases r with
  | none => exact ⟨g, hgood, h.tracks, h.held, h.inj⟩
  | some f =>
    simp only [onFiles, ends_bind, ends_get]
    rcases lt_or_ge k.files.nextFd (2 + fdSlots) with hlt | hge
    · obtain ⟨d, hadd, _, hd⟩ := h.tracks.processAddFile_eq f hlt
      simp only [hadd, ends_bind, ends_set, ends_pure]
      exact ⟨_, h.add hgood hd⟩
    · have herr : processAddFile k.files (some f) = .error .outside := by
        simp only [processAddFile, slotOf_eq_error hge, bind_error]
      simp only [herr, ends_throw]
      exact ⟨hge, hfound (Option.some_ne_none f), rfl⟩

lemma Sound.runs_filesize (fd : Word) : (FileCall.filesize fd).Runs k := by
  simp only [FileCall.Runs, FileCall.run, Syscall.filesize, ends_bind]
  rw [ends_getFile h]
  cases hf : g fd.toInt with
  | none => exact ⟨g, h⟩
  | some f =>
    obtain ⟨n, hrun⟩ := good_length h.good (h.held _ f hf)
    simp only [ends_bind, ends_pure]
    rw [ends_onFs (bind_of_ok hrun _)]
    exact ⟨g, h⟩

lemma Sound.runs_tell (fd : Word) : (FileCall.tell fd).Runs k := by
  simp only [FileCall.Runs, FileCall.run, Syscall.tell, ends_bind]
  rw [ends_getFile h]
  cases hf : g fd.toInt with
  | none => exact ⟨h.getFile_eq_none.mpr hf, rfl⟩
  | some f =>
    obtain ⟨n, hrun⟩ := good_tell h.good (h.held _ f hf)
    simp only [ends_bind, ends_pure]
    rw [ends_onFs (bind_of_ok hrun _)]
    exact ⟨g, h⟩

lemma Sound.runs_seek (fd position : Word) : (FileCall.seek fd position).Runs k := by
  simp only [FileCall.Runs, FileCall.run, Syscall.seek, ends_bind, ends_pure]
  rw [ends_getFile h]
  cases hf : g fd.toInt with
  | none => exact ⟨g, h⟩
  | some f =>
    rcases good_seek h.good (h.held _ f hf) position with ⟨_, s, hrun, hgood⟩ | ⟨hpos, hrun⟩
    · rw [ends_onFs (bind_of_ok hrun _)]
      exact ⟨g, hgood, h.tracks, h.held, h.inj⟩
    · rw [ends_onFs_error (by rw [hrun, bind_error])]
      refine ⟨hpos, fun hnone => ?_, rfl⟩
      rw [h.getFile_eq_none, hf] at hnone
      cases hnone

lemma Sound.remove {fd : Int} {f : Nat} (hf : g fd = some f)
    (hgood : Good ⟨s, k.held.erase f⟩) (hd : Tracks d (update g fd none)) :
    Sound { k with fs := s, held := k.held.erase f, files := d } (update g fd none) := by
  have hkeep : ∀ fd' f', update g fd none fd' = some f' → fd' ≠ fd ∧ g fd' = some f' := by
    intro fd' f' hf'
    rwa [update_apply, Option.ite_none_left_eq_some] at hf'
  refine ⟨hgood, hd, fun fd' f' hf' => ?_, fun fd₁ fd₂ f' h₁ h₂ => ?_⟩
  · obtain ⟨hne, hf'⟩ := hkeep fd' f' hf'
    have hff : f' ≠ f := fun he => hne (h.inj fd' fd f (he ▸ hf') hf)
    exact (List.mem_erase_of_ne hff).mpr (h.held fd' f' hf')
  · exact h.inj fd₁ fd₂ f' (hkeep fd₁ f' h₁).2 (hkeep fd₂ f' h₂).2

lemma Sound.runs_close (fd : Word) : (FileCall.close fd).Runs k := by
  obtain ⟨d, hclose, _, hd⟩ := h.tracks.processCloseFile_eq fd.toInt
  simp only [FileCall.Runs, FileCall.run, Syscall.close, onFiles, ends_bind, ends_get, hclose, ends_set, ends_pure,
    ends_modify]
  cases hf : g fd.toInt with
  | none =>
    refine ⟨g, h.good, ?_, h.held, h.inj⟩
    rwa [← hf, update_eq_self] at hd
  | some f =>
    obtain ⟨s, hrun, hgood⟩ := good_close h.good (h.held _ f hf)
    rw [ends_onFs (bind_of_ok hrun _)]
    exact ⟨_, h.remove hf hgood hd⟩

end Steps

end Pintos.Syscall
