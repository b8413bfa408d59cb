import Pintos.Foundation.Runs
import Pintos.Filesys.Mount

/-! Runs of the file system's operations, and who owns which sector along them. -/

namespace Pintos.Filesys

open Pintos.Foundation Pintos.Kernel

abbrev Off := { n : Int // -2147483648 ≤ n ∧ n < 2147483648 }

def Off.zero : Off := ⟨0, by decide⟩

inductive Op
  | create (name : Name) (initialSize : Off)
  | openNamed (name : Name)
  | remove (name : Name)
  | reopen (f : Nat)
  | read (f : Nat) (size : Off)
  | readAt (f : Nat) (size : Off) (ofs : Nat)
  | write (f : Nat) (buffer : List Byte) (size : Off)
  | writeAt (f : Nat) (buffer : List Byte) (size : Off) (ofs : Nat)
  | seek (f : Nat) (newPos : Off)
  | denyWrite (f : Nat)
  | allowWrite (f : Nat)
  | close (f : Nat)

inductive Answer
  | flag (ok : Bool)
  | handle (file : Option Nat)
  | bytes (bs : List Byte)
  | count (n : Nat)
  | done
  deriving DecidableEq

def Op.run (s : Fs) : Op → Except Panic (Answer × Fs)
  | .create name initialSize => do
    let (ok, s) ← filesysCreate s name initialSize
    return (.flag ok, s)
  | .openNamed name => do
    let (file, s) ← filesysOpen s name
    return (.handle file, s)
  | .remove name => do
    let (ok, s) ← filesysRemove s name
    return (.flag ok, s)
  | .reopen f => do
    let (file, s) ← fileReopen s f
    return (.handle file, s)
  | .read f size => do
    let (bs, s) ← fileRead s f size
    return (.bytes bs, s)
  | .readAt f size ofs => do
    let (bs, s) ← fileReadAt s f size ofs
    return (.bytes bs, s)
  | .write f buffer size => do
    let (n, s) ← fileWrite s f buffer size
    return (.count n, s)
  | .writeAt f buffer size ofs => do
    let (n, s) ← fileWriteAt s f buffer size ofs
    return (.count n, s)
  | .seek f newPos => do return (.done, ← fileSeek s f newPos)
  | .denyWrite f => do return (.done, ← fileDenyWrite s f)
  | .allowWrite f => do return (.done, ← fileAllowWrite s f)
  | .close f => do return (.done, ← fileClose s (some f))

def Op.file : Op → Option Nat
  | .create .. | .openNamed _ | .remove _ => none
  | .reopen f | .read f _ | .readAt f .. | .write f .. | .writeAt f .. | .seek f _ | .denyWrite f
  | .allowWrite f | .close f => some f

def Op.held (held : List Nat) : Op → Answer → List Nat
  | .openNamed _, .handle (some f) | .reopen _, .handle (some f) => f :: held
  | .close f, _ => held.erase f
  | _, _ => held

structure Machine where
  fs : Fs
  held : List Nat

structure Call where
  op : Op
  mallocs : List Bool

def Machine.call (m : Machine) (c : Call) : Except Panic (Answer × Machine) := do
  let (r, s) ← c.op.run { m.fs with mallocs := c.mallocs }
  return (r, { fs := s, held := c.op.held m.held r })

def Machine.legal (m : Machine) (c : Call) : Bool := c.op.file.all fun f => m.held.contains f

def next (m : Machine) (c : Call) : Option Machine :=
  if m.legal c then (m.call c).toOption.map Prod.snd else none

def system : System Machine Call where
  init m := m.held = [] ∧ ∃ disk sectors h mallocs junk,
    filesysInit (boot disk sectors h mallocs) junk true = .ok m.fs
  next := next

def Good (m : Machine) : Prop := ∃ b held, Live m.fs b held ∧ held.map Prod.fst = m.held

variable {c : Call} {m m' : Machine}

lemma next_eq_some (h : next m c = some m') : m.legal c = true ∧ ∃ r s, c.op.run
    { m.fs with mallocs := c.mallocs } = .ok (r, s) ∧
      m' = { fs := s, held := c.op.held m.held r } := by
  rw [next] at h
  split at h
  · next hl =>
    refine ⟨hl, ?_⟩
    cases hc : m.call c with
    | error e =>
      rw [hc] at h
      cases h
    | ok x =>
      obtain ⟨⟨r, s⟩, hr, hx⟩ := bind_eq_ok.mp hc
      cases hx
      rw [hc] at h
      cases h
      exact ⟨r, s, hr, rfl⟩
  · cases h

/-- The names in the root directory are valid ones. -/
def Labelled (s : Fs) (b : Books) : Prop :=
  ∀ k < rootEntries, ∀ name, Found (s.slot b.root k) name → nameValid name = true

lemma Labelled.of_root {s t : Fs} {b b' : Books} (h : Labelled s b) (hb : b'.root = b.root)
    (hr : t.content b.root = s.content b.root) : Labelled t b' := by
  intro k hk name hf
  rw [hb, slot_congr hr hk] at hf
  exact h k hk name hf

structure Leads (s t : Fs) (b : Books) (held : List (Nat × Nat)) : Prop where
  live : ∃ b', Live t b' held ∧ b'.fm = b.fm ∧ (Labelled s b → Labelled t b')
  quiet : s.mallocs = [] → t.mallocs = []
  synced : s.mallocs = [] → s.Synced b.fm → t.Synced b.fm

lemma Leads.of_steady {s t : Fs} {b b' : Books} {held : List (Nat × Nat)} (h : Live t b' held) (hst : Steady s t b)
    (hroot : b'.root = b.root) (hfm : b'.fm = b.fm) : Leads s t b held where
  live := ⟨b', h, hfm, fun hl => hl.of_root hroot hst.root⟩
  quiet := hst.quiet
  synced := hst.synced

section Operations

variable {s : Fs} {b : Books} {held : List (Nat × Nat)} (h : Live s b held)

include h

lemma Live.leads_create (name : Name) (initialSize : Off) :
    (∃ ok t, filesysCreate s name initialSize = .ok (ok, t) ∧ Leads s t b held) ∨
      (initialSize.val < 0 ∧
        filesysCreate s name initialSize = .error (.assertion .inodeCreateLength)) := by
  refine (h.creates name initialSize.property.2).imp_left fun hrun => ?_
  obtain ⟨ok, t, b', hrun, hlive, hc⟩ := hrun
  refine ⟨ok, t, hrun, ⟨b', hlive, ?_⟩, hc.carries.quiet, hc.carries.synced⟩
  cases ok with
  | false =>
    obtain ⟨rfl, hroot⟩ := hc.refused rfl
    exact ⟨rfl, fun hl => hl.of_root rfl hroot⟩
  | true =>
    obtain ⟨hv, o, k, rfl, _, _, _, hent, _⟩ := hc.made rfl
    refine ⟨rfl, fun hl l hlt name' (hf : Found (t.slot b.root l) name') => ?_⟩
    by_cases hlk : l = k
    · subst hlk
      rwa [show name' = name from Subtype.ext (hf.2.trans hent.found.2.symm)]
    · rw [hent.others l hlt hlk] at hf
      exact hl l hlt name' hf

lemma Live.leads_remove (name : Name) :
    ∃ ok t, filesysRemove s name = .ok (ok, t) ∧ Leads s t b held := by
  obtain ⟨ok, t, b', hrun, hlive, hr⟩ := h.unlinks name
  refine ⟨ok, t, hrun, ⟨b', hlive, ?_⟩, hr.carries.quiet, hr.carries.synced⟩
  cases ok with
  | false =>
    obtain ⟨hroot, rfl⟩ := hr.refused rfl
    exact ⟨rfl, fun hl => hl.of_root rfl hroot⟩
  | true =>
    obtain ⟨k, hk, hb⟩ := hr.left rfl
    have hsame : b'.root = b.root ∧ b'.fm = b.fm := by
      rcases hb with rfl | ⟨o, _, rfl, _⟩
      · exact ⟨rfl, rfl⟩
      · exact ⟨rfl, rfl⟩
    refine ⟨hsame.2, fun hl l hlt name' hf => ?_⟩
    rw [hsame.1] at hf
    by_cases hlk : l = k
    · subst hlk
      cases hf.1.symm.trans hk.freed
    · rw [hk.others l hlt hlk] at hf
      exact hl l hlt name' hf

lemma Live.leads_open (name : Name) :
    ∃ r t, filesysOpen s name = .ok (r, t) ∧
      ∃ held', Leads s t b held' ∧ held'.map Prod.fst = r.toList ++ held.map Prod.fst := by
  obtain ⟨r, t, hrun, ho, hnone, hsome⟩ := h.opensNamed name
  have hst := ho.disk.steady b
  refine ⟨r, t, hrun, ?_⟩
  cases r with
  | none => exact ⟨held, .of_steady (hnone rfl) hst rfl rfl, rfl⟩
  | some f =>
    obtain ⟨p, k, o, i, hlive, _⟩ := hsome f rfl
    exact ⟨(f, p) :: held, .of_steady hlive hst rfl rfl, rfl⟩

lemma Live.labelled_of_writes {t : Fs} {o : Obj} (ho : o ∈ b.files) {ofs n : Nat} {buffer : List Byte}
    (hw : Writes s t b o ofs buffer n) (hl : Labelled s b) : Labelled t b :=
  hl.of_root rfl (hw.others b.root b.root_mem (Ne.symm (Books.file_ne h.inv.sound.exclusive ho).2))

lemma Live.synced_of_writes {t : Fs} {o : Obj} (ho : o ∈ b.files) {ofs n : Nat} {buffer : List Byte}
    (hw : Writes s t b o ofs buffer n) (hs : s.Synced b.fm) : t.Synced b.fm := by
  obtain ⟨c, hc, hfm⟩ := hs
  refine ⟨c, hw.freeMap ▸ hc, (hw.others b.fm b.fm_mem ?_).trans hfm⟩
  exact Ne.symm (Books.file_ne h.inv.sound.exclusive ho).1

variable {f p : Nat} (hm : (f, p) ∈ held)

include hm

lemma Live.leads_reopen :
    ∃ r t, fileReopen s f = .ok (r, t) ∧
      ∃ held', Leads s t b held' ∧ held'.map Prod.fst = r.toList ++ held.map Prod.fst := by
  obtain ⟨r, t, hrun, hd, _, hnone, hsome⟩ := h.reopens hm
  have hst := hd.steady b
  refine ⟨r, t, hrun, ?_⟩
  cases r with
  | none => exact ⟨held, .of_steady (hnone rfl).2.2 hst rfl rfl, rfl⟩
  | some g => exact ⟨(g, p) :: held, .of_steady (hsome g rfl).1 hst rfl rfl, rfl⟩

lemma Live.leads_read (size : Int) : ∃ bs t, fileRead s f size = .ok (bs, t) ∧ Leads s t b held := by
  obtain ⟨o, x, i, ho, hon⟩ := h.openOn hm
  obtain ⟨n, ms, hrun, hlive, ht⟩ := h.reads hm ho hon size
  exact ⟨_, _, hrun, ⟨b, hlive, rfl, id⟩, fun hq => (ht.quiet hq).2, fun _ => id⟩

lemma Live.leads_readAt (size : Int) (ofs : Nat) :
    ∃ bs t, fileReadAt s f size ofs = .ok (bs, t) ∧ Leads s t b held := by
  obtain ⟨o, x, i, ho, hon⟩ := h.openOn hm
  obtain ⟨n, ms, hrun, ht⟩ := h.readsAt ho hon size ofs
  refine ⟨((s.content o).drop ofs).take n, _, ?_, ⟨b, h.with_mallocs ms, rfl, id⟩,
    fun hq => (ht.quiet hq).2, fun _ => id⟩
  rw [fileReadAt, fileAt_eq hon.file, bind_ok, hon.ptr, hrun]

lemma Live.leads_write (buffer : List Byte) (size : Int) :
    ∃ n t, fileWrite s f buffer size = .ok (n, t) ∧ Leads s t b held := by
  obtain ⟨o, x, i, ho, hon⟩ := h.openOn hm
  obtain ⟨n, t, hrun, _, hlive, hw, _⟩ := h.writes hm ho hon buffer size
  have hlab : Labelled s b → Labelled t b := h.labelled_of_writes ho hw
  have hsync : s.Synced b.fm → t.Synced b.fm := h.synced_of_writes ho hw
  exact ⟨n, _, hrun, ⟨b, hlive, rfl, hlab⟩, hw.quiet, fun _ => hsync⟩

lemma Live.leads_writeAt (buffer : List Byte) (size : Int) (ofs : Nat) :
    ∃ n t, fileWriteAt s f buffer size ofs = .ok (n, t) ∧ Leads s t b held := by
  obtain ⟨o, x, i, ho, hon⟩ := h.openOn hm
  obtain ⟨n, t, hrun, hlive, hw, _⟩ := h.writesAt ho hon buffer size ofs
  refine ⟨n, t, ?_, ⟨b, hlive, rfl, h.labelled_of_writes ho hw⟩, hw.quiet, fun _ hs => h.synced_of_writes ho hw hs⟩
  rw [fileWriteAt, fileAt_eq hon.file, bind_ok, hon.ptr, hrun]

lemma Live.leads_seek (newPos : Off) :
    (∃ t, fileSeek s f newPos = .ok t ∧ Leads s t b held) ∨
      (newPos.val < 0 ∧ fileSeek s f newPos = .error (.assertion .fileSeekPos)) := by
  obtain ⟨x, hx, _⟩ := h.file f p hm
  rcases Int.lt_or_le newPos.val 0 with hneg | hpos
  · right
    refine ⟨hneg, ?_⟩
    simp only [fileSeek, fileAt_eq hx, bind_ok, assertThat_neg (show ¬ 0 ≤ newPos.val by omega), bind_error]
  · obtain ⟨hrun, hlive⟩ := h.seeks hm hx hpos
    exact .inl ⟨_, hrun, ⟨b, hlive, rfl, id⟩, id, fun _ => id⟩

lemma Live.leads_denyWrite : ∃ t, fileDenyWrite s f = .ok t ∧ Leads s t b held := by
  obtain ⟨x, hx, _⟩ := h.file f p hm
  obtain ⟨t, hrun, hlive, hmark⟩ := h.deniesWrite hm hx
  exact ⟨t, hrun, .of_steady hlive (hmark.disk.steady b) rfl rfl⟩

lemma Live.leads_allowWrite : ∃ t, fileAllowWrite s f = .ok t ∧ Leads s t b held := by
  obtain ⟨x, hx, _⟩ := h.file f p hm
  obtain ⟨t, hrun, hlive, hmark⟩ := h.allowsWrite hm hx
  exact ⟨t, hrun, .of_steady hlive (hmark.disk.steady b) rfl rfl⟩

lemma Live.leads_close : ∃ t, fileClose s (some f) = .ok t ∧ Leads s t b (held.erase (f, p)) := by
  obtain ⟨t, b', hrun, hlive, hst, _, _, hroot, hfm, _⟩ := h.closes hm
  exact ⟨t, hrun, .of_steady hlive hst hroot hfm⟩

end Operations

def Op.Fails : Op → Panic → Prop
  | .create _ initialSize, e => initialSize.val < 0 ∧ e = .assertion .inodeCreateLength
  | .seek _ newPos, e => newPos.val < 0 ∧ e = .assertion .fileSeekPos
  | _, _ => False

lemma Live.runs {s : Fs} {b : Books} {held : List (Nat × Nat)} (h : Live s b held) (op : Op)
    (hl : ∀ f, op.file = some f → f ∈ held.map Prod.fst) :
    (∃ r t held', op.run s = .ok (r, t) ∧ Leads s t b held' ∧
      held'.map Prod.fst = op.held (held.map Prod.fst) r) ∨ ∃ e, op.run s = .error e ∧ op.Fails e := by
  have hheld : ∀ f, op.file = some f → ∃ p, (f, p) ∈ held := fun f hf => by simpa using hl f hf
  cases op with
  | create name initialSize =>
    rcases h.leads_create name initialSize with ⟨ok, t, hrun, ht⟩ | ⟨hneg, hrun⟩
    · exact .inl ⟨.flag ok, t, held, bind_of_ok hrun _, ht, rfl⟩
    · exact .inr ⟨_, by simp only [Op.run, hrun, bind_error], hneg, rfl⟩
  | openNamed name =>
    obtain ⟨r, t, hrun, held', ht, hk⟩ := h.leads_open name
    refine .inl ⟨.handle r, t, held', bind_of_ok hrun _, ht, ?_⟩
    rw [hk]
    cases r with
    | none => rfl
    | some f => rfl
  | remove name =>
    obtain ⟨ok, t, hrun, ht⟩ := h.leads_remove name
    exact .inl ⟨.flag ok, t, held, bind_of_ok hrun _, ht, rfl⟩
  | reopen f =>
    obtain ⟨p, hm⟩ := hheld f rfl
    obtain ⟨r, t, hrun, held', ht, hk⟩ := h.leads_reopen hm
    refine .inl ⟨.handle r, t, held', bind_of_ok hrun _, ht, ?_⟩
    rw [hk]
    cases r with
    | none => rfl
    | some f => rfl
  | read f size =>
    obtain ⟨p, hm⟩ := hheld f rfl
    obtain ⟨bs, t, hrun, ht⟩ := h.leads_read hm size
    exact .inl ⟨.bytes bs, t, held, bind_of_ok hrun _, ht, rfl⟩
  | readAt f size ofs =>
    obtain ⟨p, hm⟩ := hheld f rfl
    obtain ⟨bs, t, hrun, ht⟩ := h.leads_readAt hm size ofs
    exact .inl ⟨.bytes bs, t, held, bind_of_ok hrun _, ht, rfl⟩
  | write f buffer size =>
    obtain ⟨p, hm⟩ := hheld f rfl
    obtain ⟨n, t, hrun, ht⟩ := h.leads_write hm buffer size
    exact .inl ⟨.count n, t, held, bind_of_ok hrun _, ht, rfl⟩
  | writeAt f buffer size ofs =>
    obtain ⟨p, hm⟩ := hheld f rfl
    obtain ⟨n, t, hrun, ht⟩ := h.leads_writeAt hm buffer size ofs
    exact .inl ⟨.count n, t, held, bind_of_ok hrun _, ht, rfl⟩
  | seek f newPos =>
    obtain ⟨p, hm⟩ := hheld f rfl
    rcases h.leads_seek hm newPos with ⟨t, hrun, ht⟩ | ⟨hneg, hrun⟩
    · exact .inl ⟨.done, t, held, bind_of_ok hrun _, ht, rfl⟩
    · exact .inr ⟨_, by simp only [Op.run, hrun, bind_error], hneg, rfl⟩
  | denyWrite f =>
    obtain ⟨p, hm⟩ := hheld f rfl
    obtain ⟨t, hrun, ht⟩ := h.leads_denyWrite hm
    exact .inl ⟨.done, t, held, bind_of_ok hrun _, ht, rfl⟩
  | allowWrite f =>
    obtain ⟨p, hm⟩ := hheld f rfl
    obtain ⟨t, hrun, ht⟩ := h.leads_allowWrite hm
    exact .inl ⟨.done, t, held, bind_of_ok hrun _, ht, rfl⟩
  | close f =>
    obtain ⟨p, hm⟩ := hheld f rfl
    obtain ⟨t, hrun, ht⟩ := h.leads_close hm
    refine .inl ⟨.done, t, held.erase (f, p), bind_of_ok hrun _, ht, ?_⟩
    exact map_erase_fst h.keys hm

lemma fresh_of_init (h : system.init m) : m.held = [] ∧ ∃ b, Fresh m.fs b := by
  obtain ⟨hheld, disk, sectors, hs, mallocs, junk, hinit⟩ := h
  obtain ⟨b, hfresh, _⟩ := filesysInit_format hinit
  exact ⟨hheld, b, hfresh⟩

section Calls

variable {b : Books} {held : List (Nat × Nat)} (h : Live m.fs b held) (hk : held.map Prod.fst = m.held)

include h hk

lemma Live.call_cases (hl : m.legal c = true) :
    (∃ r t held', c.op.run { m.fs with mallocs := c.mallocs } = .ok (r, t) ∧
      Leads { m.fs with mallocs := c.mallocs } t b held' ∧ held'.map Prod.fst = c.op.held m.held r) ∨
      ∃ e, c.op.run { m.fs with mallocs := c.mallocs } = .error e ∧ c.op.Fails e := by
  rw [← hk]
  refine (h.with_mallocs c.mallocs).runs c.op fun f hf => ?_
  rw [hk]
  simpa [Machine.legal, hf] using hl

lemma Live.next (hn : next m c = some m') : ∃ held', Leads
    { m.fs with mallocs := c.mallocs } m'.fs b held' ∧ held'.map Prod.fst = m'.held := by
  obtain ⟨hl, r, s, hrun, rfl⟩ := next_eq_some hn
  rcases h.call_cases hk hl with ⟨r', t, held', hrun', ht, hk'⟩ | ⟨e, hrun', _⟩
  · cases hrun.symm.trans hrun'
    exact ⟨held', ht, hk'⟩
  · cases hrun.symm.trans hrun'

end Calls

lemma good_of_next (h : Good m) (hn : next m c = some m') : Good m' := by
  obtain ⟨b, held, hlive, hk⟩ := h
  obtain ⟨held', ht, hk'⟩ := hlive.next hk hn
  obtain ⟨b', hlive', _⟩ := ht.live
  exact ⟨b', held', hlive', hk'⟩

lemma reachable_labelled (h : system.Reachable m) :
    ∃ b held, Live m.fs b held ∧ held.map Prod.fst = m.held ∧ Labelled m.fs b := by
  refine System.Reachable.invariant (I := fun m : Machine =>
    ∃ b held, Live m.fs b held ∧ held.map Prod.fst = m.held ∧ Labelled m.fs b) ?_ ?_ h
  · intro m hi
    obtain ⟨hheld, b, hfresh⟩ := fresh_of_init hi
    exact ⟨b, [], hfresh.live, hheld.symm, fun k hk name hf => (not_inUse_of_empty hfresh.empty hk hf.1).elim⟩
  · rintro m c m' ⟨b, held, hlive, hk, hlab⟩ hn
    obtain ⟨held', ht, hk'⟩ := hlive.next hk hn
    obtain ⟨b', hlive', _, hlab'⟩ := ht.live
    exact ⟨b', held', hlive', hk', hlab' hlab⟩

lemma reachable_good (h : system.Reachable m) : Good m := by
  obtain ⟨b, held, hlive, hk, _⟩ := reachable_labelled h
  exact ⟨b, held, hlive, hk⟩

def Fs.diskInode (s : Fs) (sector : Nat) : InodeDisk := .ofBytes (s.disk.read (512 * sector) 512)

def Fs.entries (s : Fs) : List (List Byte) :=
  let root := s.diskInode rootDirSector
  ((List.range (root.length.toNat / entrySize)).map fun k =>
    s.disk.read (512 * root.start + entrySize * k) entrySize).filter entryInUse

def Fs.removedInodes (s : Fs) : List Inode := (s.openInodes.filterMap s.inode).filter Inode.removed

/-- Who owns sectors: the free map, the root directory, the files named in it, and the files that are
removed but still open. Each is given by its inode's sector and contents. -/
def Fs.owners (s : Fs) : List (Nat × InodeDisk) :=
  (freeMapSector, s.diskInode freeMapSector) :: (rootDirSector, s.diskInode rootDirSector) ::
    (s.entries.map fun e => (entrySector e, s.diskInode (entrySector e))) ++
    s.removedInodes.map fun i => (i.sector, i.data)

def ownedBy (x : Nat × InodeDisk) : List Nat := x.1 :: List.range' x.2.start (bytesToSectors x.2.length)

lemma Fs.mem_removedInodes {s : Fs} {i : Inode} (hi : i ∈ s.removedInodes) :
    ∃ p, s.inode p = some i ∧ i.removed = true := by
  rw [Fs.removedInodes, List.mem_filter, List.mem_filterMap] at hi
  obtain ⟨⟨p, _, hp⟩, hr⟩ := hi
  exact ⟨p, hp, hr⟩

section Owners

variable {s : Fs} {b : Books} {refs : List Nat} (h : Inv s b refs)

include h

lemma Inv.diskInode_eq {o : Obj} (ho : o ∈ b.objs) : s.diskInode o.sector = o.data := h.sound.onDisk o ho

lemma Inv.entries_eq : s.entries = ((List.range rootEntries).map (s.slot b.root)).filter entryInUse := by
  have hroot := h.diskInode_eq b.root_mem
  rw [b.root_sector] at hroot
  have hlen : (b.root.data.length.toNat / entrySize) = rootEntries := by
    change (b.root.length : Int).toNat / entrySize = _
    rw [Int.toNat_natCast, b.root_length]
    rfl
  rw [Fs.entries, hroot, hlen]
  rfl

lemma Inv.mem_entries {e : List Byte} (he : e ∈ s.entries) :
    ∃ k < rootEntries, e = s.slot b.root k ∧ entryInUse (s.slot b.root k) = true := by
  rw [h.entries_eq, List.mem_filter, List.mem_map] at he
  obtain ⟨⟨k, hk, rfl⟩, hu⟩ := he
  exact ⟨k, List.mem_range.mp hk, rfl, hu⟩

lemma Inv.entrySectors_nodup : (s.entries.map entrySector).Nodup := by
  rw [h.entries_eq, List.filter_map, List.map_map]
  apply List.Nodup.map_on
  · intro k hk l hl he
    obtain ⟨hk, hu⟩ := List.mem_filter.mp hk
    obtain ⟨hl, hu'⟩ := List.mem_filter.mp hl
    exact h.names.distinct k (List.mem_range.mp hk) l (List.mem_range.mp hl) hu hu' he
  · exact List.nodup_range.filter _

lemma Inv.removedSectors_nodup : (s.removedInodes.map Inode.sector).Nodup := by
  have hp : (s.openInodes.filterMap s.inode).Pairwise fun i j => i.sector ≠ j.sector := by
    rw [List.pairwise_filterMap]
    apply h.table.nodup.imp_of_mem
    intro p q _ _ hne i hi j hj he
    exact hne (h.table.inj p q i j hi hj he)
  exact List.pairwise_map.mpr (hp.sublist List.filter_sublist)

lemma Inv.ownerSectors_nodup : (s.owners.map Prod.fst).Nodup := by
  have hx := h.sound.exclusive
  have hnamed : ∀ x ∈ s.entries.map entrySector, ∃ o ∈ b.files, o.sector = x := by
    intro x hm
    obtain ⟨e, he, rfl⟩ := List.mem_map.mp hm
    obtain ⟨k, hk, rfl, hu⟩ := h.mem_entries he
    exact h.names.named k hk hu
  have hgone : ∀ x ∈ s.removedInodes.map Inode.sector,
      (∃ o ∈ b.files, o.sector = x) ∧ x ∉ s.entries.map entrySector := by
    intro x hm
    obtain ⟨i, hi, rfl⟩ := List.mem_map.mp hm
    obtain ⟨p, hp, hr⟩ := Fs.mem_removedInodes hi
    refine ⟨(h.names.gone p i hp hr).1, fun he => ?_⟩
    obtain ⟨e, he, hs⟩ := List.mem_map.mp he
    obtain ⟨k, hk, rfl, hu⟩ := h.mem_entries he
    exact (h.names.gone p i hp hr).2 k hk hu hs
  have hfiles : ∀ x ∈ s.entries.map entrySector ++ s.removedInodes.map Inode.sector,
      x ≠ freeMapSector ∧ x ≠ rootDirSector := by
    intro x hm
    have ho : ∃ o ∈ b.files, o.sector = x :=
      (List.mem_append.mp hm).elim (hnamed x) fun hm => (hgone x hm).1
    obtain ⟨o, ho, rfl⟩ := ho
    exact Books.sector_ne hx ho
  have he : s.owners.map Prod.fst = freeMapSector :: rootDirSector ::
      (s.entries.map entrySector ++ s.removedInodes.map Inode.sector) := by
    simp [Fs.owners, Function.comp_def]
  rw [he, List.nodup_cons, List.nodup_cons]
  refine ⟨fun hm => ?_, fun hm => (hfiles _ hm).2 rfl, ?_⟩
  · rcases List.mem_cons.mp hm with hm | hm
    · cases hm
    · exact (hfiles _ hm).1 rfl
  · exact List.nodup_append'.mpr
      ⟨h.entrySectors_nodup, h.removedSectors_nodup, fun x hm hm' => (hgone x hm').2 hm⟩

lemma Inv.owner_obj {x : Nat × InodeDisk} (hm : x ∈ s.owners) :
    ∃ o ∈ b.objs, o.sector = x.1 ∧ o.sectors = ownedBy x := by
  have hof : ∀ o ∈ b.objs, x = (o.sector, o.data) → ∃ o ∈ b.objs, o.sector = x.1 ∧ o.sectors = ownedBy x := by
    rintro o ho rfl
    exact ⟨o, ho, rfl, rfl⟩
  rw [Fs.owners, List.cons_append, List.cons_append, List.mem_cons, List.mem_cons, List.mem_append,
    List.mem_map, List.mem_map] at hm
  rcases hm with rfl | rfl | ⟨e, he, rfl⟩ | ⟨i, hi, rfl⟩
  · apply hof b.fm b.fm_mem
    rw [← h.diskInode_eq b.fm_mem, b.fm_sector]
  · apply hof b.root b.root_mem
    rw [← h.diskInode_eq b.root_mem, b.root_sector]
  · obtain ⟨k, hk, rfl, hu⟩ := h.mem_entries he
    obtain ⟨o, ho, hs⟩ := h.names.named k hk hu
    apply hof o (Books.file_mem ho)
    rw [← h.diskInode_eq (Books.file_mem ho), hs]
  · obtain ⟨p, hp, _⟩ := Fs.mem_removedInodes hi
    obtain ⟨o, ho, hs, hd⟩ := h.table.backed p i hp
    apply hof o ho
    rw [hs, hd]

end Owners

/-- No sector has two owners, every owned sector is in use, and nothing releases a free sector. -/
theorem sectors_owned_once {m : Machine} (h : system.Reachable m) :
    (m.fs.owners.flatMap ownedBy).Nodup ∧
      (∀ x ∈ m.fs.owners.flatMap ownedBy, x < m.fs.sectors ∧ m.fs.freeMap.bit x = true) ∧
      ∀ c, m.legal c = true → m.call c ≠ .error (.assertion .freeMapReleaseAll) := by
  obtain ⟨b, held, hlive, hk⟩ := reachable_good h
  have hinv := hlive.inv
  refine ⟨hinv.sound.exclusive.of_map hinv.ownerSectors_nodup fun x hx => hinv.owner_obj hx, ?_, ?_⟩
  · intro x hx
    obtain ⟨y, hy, hxy⟩ := List.mem_flatMap.mp hx
    obtain ⟨o, ho, _, hs⟩ := hinv.owner_obj hy
    exact hinv.sound.used x (mem_owned.mpr ⟨o, ho, hs ▸ hxy⟩)
  · intro c hl
    rw [Machine.call]
    rcases hlive.call_cases hk hl with ⟨r, s, _, hrun, _⟩ | ⟨e, hrun, hfail⟩
    · rw [hrun]
      nofun
    · rw [hrun, bind_error]
      rintro ⟨⟩
      cases hop : c.op with
      | create name initialSize => rw [hop] at hfail; cases hfail.2
      | seek f newPos => rw [hop] at hfail; cases hfail.2
      | _ => rw [hop] at hfail; exact hfail

def smallRun (ops : List Op) : Option Machine :=
  match filesysInit (boot (fun _ => 0) 12 (by decide) []) (fun _ => 0) true with
  | .ok fs => system.exec { fs, held := [] } (ops.map fun op => { op, mallocs := [] })
  | .error _ => none

lemma smallRun_init {ops : List Op} (h : smallRun ops = some m) :
    ∃ m₀, system.init m₀ ∧ system.exec m₀ (ops.map fun op => { op, mallocs := [] }) = some m := by
  rw [smallRun] at h
  split at h
  · next fs hinit => exact ⟨_, ⟨rfl, _, _, _, _, _, hinit⟩, h⟩
  · cases h

lemma smallRun_reachable {ops : List Op} (h : smallRun ops = some m) :
    system.ReachableWhere (fun _ c => c.mallocs = []) m := by
  obtain ⟨m₀, hinit, hrun⟩ := smallRun_init h
  refine System.exec_reachableWhere (.init hinit) (fun c hc _ => ?_) hrun
  obtain ⟨op, _, rfl⟩ := List.mem_map.mp hc
  rfl

def nameA : Name := ⟨[97], by decide⟩

def nameB : Name := ⟨[98], by decide⟩

theorem sectors_owned_once_with_removed :
    ∃ m, system.Reachable m ∧ m.fs.entries.length = 1 ∧ m.fs.removedInodes.length = 1 ∧
      (m.fs.owners.flatMap ownedBy).Nodup := by
  have hrun : ((smallRun [.create nameA ⟨600, by decide⟩, .create nameB ⟨10, by decide⟩, .openNamed nameA,
      .remove nameA]).map fun m => (m.fs.entries.length, m.fs.removedInodes.length)) = some (1, 1) := by
    decide +kernel
  obtain ⟨m, hm, he⟩ := Option.map_eq_some_iff.mp hrun
  have hr := (smallRun_reachable hm).reachable
  exact ⟨m, hr, congrArg Prod.fst he, congrArg Prod.snd he, (sectors_owned_once hr).1⟩

end Pintos.Filesys
