import Pintos.Filesys.DirectoryCalls

/-! Runs of directory calls: every answer is that of a finite map with room for as many names as there are slots. -/

namespace Pintos.Filesys

open Pintos.Foundation Pintos.Kernel

def makeInode (s : Fs) (length : Nat) : Except Panic (Option Nat × Fs) := do
  match ← freeMapAllocate s 1 with
  | (none, s) => return (none, s)
  | (some sector, s) =>
    let (ok, s) ← inodeCreate s sector length
    if ok then return (some sector, s)
    else return (none, ← freeMapRelease s sector 1)

inductive CreatedDir : Nat → Fs → Dir → Prop
  | fresh {m : Machine} {n sector p : Nat} {s₁ s₂ s₃ s : Fs} {dir : Dir} (reachable : system.Reachable m)
    (quiet : m.fs.mallocs = []) (room : n * entrySize < 2147483648)
    (allocated : freeMapAllocate m.fs 1 = .ok (some sector, s₁))
    (created : dirCreate s₁ sector n = .ok (true, s₂))
    (inode : inodeOpen s₂ sector = .ok (some p, s₃))
    (opened : dirOpen s₃ (some p) = .ok (some dir, s)) : CreatedDir n s dir
  | root {disk : Memory} {sectors : Nat} {h : sectors + 31 < 4294967296} {junk : Nat → BitVec 32} {fs s : Fs}
    {dir : Dir} (formatted : filesysInit (boot disk sectors h []) junk true = .ok fs)
    (opened : dirOpenRoot fs = .ok (some dir, s)) : CreatedDir rootEntries s dir

structure DirMachine where
  fs : Fs
  dir : Dir
  held : List Nat
  map : DirMap

inductive DirOp
  | add (name : Name) (length : Fin 2147483648)
  | remove (name : Name)
  | lookup (name : Name)
  | readdir
  | close (p : Nat)

inductive DirAnswer
  | added (r : Option (Nat × Bool))
  | flag (ok : Bool)
  | inode (r : Option Nat)
  | name (r : Option (List Byte))
  | done

namespace DirMachine

def call (x : DirMachine) : DirOp → Except Panic (DirAnswer × DirMachine)
  | .add name length => do
    match ← makeInode x.fs length with
    | (none, fs) => return (.added none, { x with fs })
    | (some sector, fs) =>
      let (ok, fs) ← dirAdd fs x.dir name sector
      return (.added (some (sector, ok)), { x with fs, map := if ok then x.map.insert name.val sector else x.map })
  | .remove name => do
    let (ok, fs) ← dirRemove x.fs x.dir name
    return (.flag ok, { x with fs, map := if ok then x.map.erase name.val else x.map })
  | .lookup name => do
    let (r, fs) ← dirLookup x.fs x.dir name
    return (.inode r, { x with fs, held := r.toList ++ x.held })
  | .readdir => do
    let (r, dir, fs) ← dirReaddir x.fs x.dir
    return (.name r, { x with fs, dir })
  | .close p => do
    return (.done, { x with fs := ← inodeClose x.fs (some p), held := x.held.erase p })

def Legal (x : DirMachine) : DirOp → Prop
  | .close p => p ∈ x.held
  | _ => True

instance (x : DirMachine) : (op : DirOp) → Decidable (x.Legal op)
  | .close p => inferInstanceAs (Decidable (p ∈ x.held))
  | .add _ _ | .remove _ | .lookup _ | .readdir => .isTrue trivial

end DirMachine

def directorySystem (n : Nat) : System DirMachine DirOp where
  init x := CreatedDir n x.fs x.dir ∧ x.held = [] ∧ x.map = ∅
  next x op := if x.Legal op then (x.call op).toOption.map Prod.snd else none

lemma directorySystem_next (n : Nat) (x : DirMachine) (op : DirOp) :
    (directorySystem n).next x op = if x.Legal op then (x.call op).toOption.map Prod.snd else none := rfl

def Meets (n : Nat) (m : DirMap) (y : DirMachine) : DirOp → DirAnswer → Prop
  | .add _ _, .added none => y.map = m
  | .add name _, .added (some (sector, ok)) =>
    (ok = true ↔ nameValid name = true ∧ name.val ∉ m ∧ m.keys.card < n) ∧
      y.map = if ok then m.insert name.val sector else m
  | .remove name, .flag ok => (ok = true ↔ name.val ∈ m) ∧ y.map = if ok then m.erase name.val else m
  | .lookup name, .inode none => m.lookup name.val = none ∧ y.map = m
  | .lookup name, .inode (some p) => (∃ j, y.fs.inode p = some j ∧ m.lookup name.val = some j.sector) ∧ y.map = m
  | .readdir, .name r => (∀ x, r = some x → x ∈ m) ∧ y.map = m
  | .close _, .done => y.map = m
  | _, _ => False

def DirMachine.Sound (x : DirMachine) (n : Nat) : Prop :=
  ∃ b rest d, Directory x.fs b (x.dir.inode :: (x.held ++ rest)) d n ∧ OpenDir x.fs d x.dir ∧
    Represents x.fs d n x.map ∧ x.dir.inode ∉ x.held ∧ ∃ k ≤ n, x.dir.pos = entrySize * k

variable {s t : Fs} {b : Books} {refs : List Nat} {d : Obj} {n : Nat} {dir : Dir} {m : DirMap}

lemma OpenDir.congr (h : OpenDir s d dir) (hi : t.inode = s.inode) : OpenDir t d dir := by
  rw [OpenDir, hi]
  exact h

lemma Directory.makes (h : Directory s b refs d n) (hm : Represents s d n m) {length : Nat}
    (hl : length < 2147483648) :
    ∃ r t, makeInode s length = .ok (r, t) ∧ t.inode = s.inode ∧ Represents t d n m ∧
      (r = none → Directory t b refs d n) ∧
      ∀ sector, r = some sector → ∃ o : Obj, o.sector = sector ∧ o ≠ d ∧ Directory t (b.add o) refs d n ∧
        Unnamed t (b.add o) sector ∧ (∀ p j, t.inode p = some j → sector ≠ j.sector) ∧
        ∀ l < n, entryInUse (t.slot d l) = true → entrySector (t.slot d l) ≠ sector := by
  obtain ⟨r, t₁, hrun₁, hinv₁, hst₁, htab₁, -, -, hres⟩ := h.inv.allocate 1
  have hslot₁ : ∀ k < n, t₁.slot d k = s.slot d k := fun k hk => h.slot_of_content (h.content_of_steady hst₁) hk
  have h₁ : Directory t₁ b refs d n := h.with_books hinv₁ hst₁ rfl (fun _ => id) htab₁.inode
  cases r with
  | none =>
    exact ⟨none, t₁, by rw [makeInode, hrun₁]; rfl, htab₁.inode, hm.congr hslot₁, fun _ => h₁, nofun⟩
  | some x =>
    obtain ⟨ok, t₂, hrun₂, htab₂, hst₂, -, hbad, hgood⟩ := hinv₁.create (hres x rfl) hl
    have hslot₂ : ∀ k < n, t₂.slot d k = s.slot d k := fun k hk =>
      (h₁.slot_of_content (h₁.content_of_steady hst₂) hk).trans (hslot₁ k hk)
    have hi₂ : t₂.inode = s.inode := htab₂.inode.trans htab₁.inode
    cases ok with
    | false =>
      obtain ⟨hinv₂, hres₂⟩ := hbad rfl
      have h₂ : Directory t₂ b refs d n := h₁.with_books hinv₂ hst₂ rfl (fun _ => id) htab₂.inode
      obtain ⟨t₃, hrun₃, hinv₃, hst₃, htab₃, -⟩ := hinv₂.release hres₂
      refine ⟨none, t₃, ?_, htab₃.inode.trans hi₂, ?_,
        fun _ => h₂.with_books hinv₃ hst₃ rfl (fun _ => id) htab₃.inode, nofun⟩
      · rw [makeInode, hrun₁, bind_ok]
        simp only [hrun₂, bind_ok, Bool.false_eq_true, if_false, hrun₃]
        rfl
      · exact hm.congr fun k hk => (h₂.slot_of_content (h₂.content_of_steady hst₃) hk).trans (hslot₂ k hk)
    | true =>
      obtain ⟨o, rfl, -, hnew, hinv₂, -, -⟩ := hgood rfl
      refine ⟨some o.sector, t₂, ?_, hi₂, hm.congr hslot₂, nofun, ?_⟩
      · rw [makeInode, hrun₁, bind_ok]
        simp only [hrun₂, bind_ok, if_true]
        rfl
      · rintro sector ⟨⟩
        refine ⟨o, rfl, ?_, h₁.with_books hinv₂ hst₂ rfl (List.subset_cons_self _ _) htab₂.inode,
          (hinv₁.unnamed_of_notMem hnew).congr hst₂.root,
          fun p j hj => hinv₁.closed_of_notMem hnew p j (htab₂.inode ▸ hj), fun l hl' hu hs => ?_⟩
        · rintro rfl
          exact hnew (sector_mem_owned h.mem_objs)
        · rw [hslot₂ l hl'] at hu hs
          obtain ⟨o', ho', -, hs'⟩ := h.lists.named l hl' hu
          exact hnew (hs ▸ hs' ▸ sector_mem_owned (Books.file_mem ho'))

namespace DirMachine

variable {x : DirMachine} (h : x.Sound n)

include h

lemma Sound.add (name : Name) (length : Fin 2147483648) :
    ∃ r y, x.call (.add name length) = .ok (r, y) ∧ y.Sound n ∧ Meets n x.map y (.add name length) r := by
  obtain ⟨b, rest, d, hdir, hopen, hm, hheld, hpos⟩ := h
  obtain ⟨r, t, hrun, hinode, hmt, hnone, hsome⟩ := hdir.makes hm length.isLt
  have hopen' := hopen.congr hinode
  cases r with
  | none =>
    refine ⟨.added none, { x with fs := t }, by rw [call, hrun]; rfl, ?_, rfl⟩
    exact ⟨b, rest, d, hnone rfl, hopen', hmt, hheld, hpos⟩
  | some sector =>
    obtain ⟨o, rfl, hod, hdir', hu, hc, hl⟩ := hsome sector rfl
    obtain ⟨ok, u, hadd, hdir'', hopen'', hiff, hmu⟩ :=
      hdir'.adds hopen' hmt List.mem_cons_self hod hu hl hc name
    refine ⟨.added (some (o.sector, ok)),
      { x with fs := u, map := if ok then x.map.insert name.val o.sector else x.map }, ?_,
      ⟨b.add o, rest, d, hdir'', hopen'', hmu, hheld, hpos⟩, hiff, rfl⟩
    rw [call, hrun, bind_ok]
    simp only [hadd, bind_ok]
    rfl

lemma Sound.remove (name : Name) :
    ∃ r y, x.call (.remove name) = .ok (r, y) ∧ y.Sound n ∧ Meets n x.map y (.remove name) r := by
  obtain ⟨b, rest, d, hdir, hopen, hm, hheld, hpos⟩ := h
  obtain ⟨ok, t, b', hrun, hdir', hopen', hiff, hmt⟩ := hdir.removes hopen hm name
  refine ⟨.flag ok, { x with fs := t, map := if ok then x.map.erase name.val else x.map }, ?_,
    ⟨b', rest, d, hdir', hopen', hmt, hheld, hpos⟩, hiff, rfl⟩
  rw [call, hrun]
  rfl

lemma Sound.lookup (name : Name) :
    ∃ r y, x.call (.lookup name) = .ok (r, y) ∧ y.Sound n ∧ Meets n x.map y (.lookup name) r := by
  obtain ⟨b, rest, d, hdir, hopen, hm, hheld, hpos⟩ := h
  rcases hdir.looksUp hopen hm name with ⟨hnone, hrun⟩ | ⟨p, t, j, hrun, hj, hsome, hdir', hopen', hne, hdisk⟩
  · exact ⟨.inode none, x, by rw [call, hrun]; rfl, ⟨b, rest, d, hdir, hopen, hm, hheld, hpos⟩, hnone, rfl⟩
  · refine ⟨.inode (some p), { x with fs := t, held := p :: x.held }, by rw [call, hrun]; rfl,
      ⟨b, rest, d, hdir'.perm (.swap _ _ _), hopen', ?_, ?_, hpos⟩, ⟨j, hj, hsome⟩, rfl⟩
    · exact hm.congr fun k _ => by rw [Fs.slot, Fs.slot, hdisk]
    · rw [List.mem_cons, not_or]
      exact ⟨Ne.symm hne, hheld⟩

lemma Sound.readdir : ∃ r y, x.call .readdir = .ok (r, y) ∧ y.Sound n ∧ Meets n x.map y .readdir r := by
  obtain ⟨b, rest, d, hdir, hopen, hm, hheld, k, hk, hpos⟩ := h
  rcases hdir.reads hopen hk hpos with ⟨-, hrun⟩ | ⟨j, -, hj, -, hu, hrun⟩
  · exact ⟨.name none, { x with dir := { x.dir with pos := entrySize * n } }, by rw [call, hrun]; rfl,
      ⟨b, rest, d, hdir, hopen, hm, hheld, n, le_rfl, rfl⟩, nofun, rfl⟩
  · refine ⟨.name (some (entryName (x.fs.slot d j))), { x with dir := { x.dir with pos := entrySize * (j + 1) } },
      by rw [call, hrun]; rfl, ⟨b, rest, d, hdir, hopen, hm, hheld, j + 1, hj, rfl⟩, ?_, rfl⟩
    rintro y ⟨⟩
    exact hm.mem_of_inUse hj hu

lemma Sound.close {p : Nat} (hp : p ∈ x.held) :
    ∃ r y, x.call (.close p) = .ok (r, y) ∧ y.Sound n ∧ Meets n x.map y (.close p) r := by
  obtain ⟨b, rest, d, hdir, hopen, hm, hheld, hpos⟩ := h
  have hne : p ≠ x.dir.inode := by
    rintro rfl
    exact hheld hp
  obtain ⟨t, b', hrun, hdir', hopen', hslots⟩ :=
    hdir.closes hopen (List.mem_cons_of_mem _ (List.mem_append_left _ hp)) hne
  refine ⟨.done, { x with fs := t, held := x.held.erase p }, by rw [call, hrun]; rfl,
    ⟨b', rest, d, ?_, hopen', hm.congr hslots, fun hmem => hheld (List.mem_of_mem_erase hmem), hpos⟩, rfl⟩
  rw [List.erase_cons_tail (by simpa using Ne.symm hne), List.erase_append_left _ hp] at hdir'
  exact hdir'

lemma Sound.call {op : DirOp} (hl : x.Legal op) :
    ∃ r y, x.call op = .ok (r, y) ∧ y.Sound n ∧ Meets n x.map y op r := by
  cases op with
  | add name length => exact h.add name length
  | remove name => exact h.remove name
  | lookup name => exact h.lookup name
  | readdir => exact h.readdir
  | close p => exact h.close hl

end DirMachine

lemma dirOpen_eq_ok {inode : Option Nat} {u : Fs} (h : dirOpen s inode = .ok (some dir, u)) :
    inode = some dir.inode ∧ dir.pos = 0 ∧ u = { s with mallocs := (malloc s.mallocs).2 } := by
  rcases hm : malloc s.mallocs with ⟨ok, ms⟩
  simp only [dirOpen, hm] at h
  split at h
  · cases h
    exact ⟨rfl, rfl, rfl⟩
  · obtain ⟨v, -, hret⟩ := bind_eq_ok.mp h
    cases hret

lemma Lists.of_unused (h : ∀ k < n, entryInUse (s.slot d k) ≠ true) : Lists s b d n where
  valid k hk hu := (h k hk hu).elim
  named k hk hu := (h k hk hu).elim
  distinct k hk _ _ hu := (h k hk hu).elim
  gone _ _ _ _ k hk hu := (h k hk hu).elim
  apart _ k hk hu := (h k hk hu).elim

lemma unused_of_zeros (hl : d.length = entrySize * n) (hz : s.content d = List.replicate d.length 0) {k : Nat}
    (hk : k < n) : entryInUse (s.slot d k) ≠ true := by
  have hle : entrySize * k + entrySize ≤ d.length := by
    rw [hl, entrySize]
    omega
  have hfree : entryInUse (List.replicate entrySize 0) = false := by decide
  rw [slot_eq s hle, hz, List.drop_replicate, List.take_replicate, Nat.min_eq_left (by omega), hfree]
  exact Bool.false_ne_true

lemma sound_of_zeros {rest : List Nat} (hinv : Inv s b (dir.inode :: rest)) (hmem : d = b.root ∨ d ∈ b.files)
    (hl : d.length = entrySize * n) (hq : s.mallocs = []) (hz : s.content d = List.replicate d.length 0)
    (hopen : OpenDir s d dir) (hpos : dir.pos = 0) : DirMachine.Sound ⟨s, dir, [], ∅⟩ n :=
  ⟨b, rest, d, ⟨hinv, hmem, hl, hq, .of_unused fun _ => unused_of_zeros hl hz⟩, hopen,
    .empty fun _ => unused_of_zeros hl hz, List.not_mem_nil, 0, Nat.zero_le n, hpos⟩

lemma sound_of_root {disk : Memory} {sectors : Nat} {h : sectors + 31 < 4294967296} {junk : Nat → BitVec 32} {fs : Fs}
    (hformat : filesysInit (boot disk sectors h []) junk true = .ok fs)
    (hopened : dirOpenRoot fs = .ok (some dir, s)) : DirMachine.Sound ⟨s, dir, [], ∅⟩ rootEntries := by
  obtain ⟨b, hfresh, -, hq, -⟩ := filesysInit_format hformat
  obtain ⟨r, t, hrun, hd, -, -, -, hsome⟩ := hfresh.live.inv.opensRoot
  cases hrun.symm.trans hopened
  obtain ⟨hinv, ⟨i, hi, hs⟩, -⟩ := hsome dir rfl
  have hquiet := hd.quiet (hq rfl)
  have hpos : dir.pos = 0 := by
    obtain ⟨⟨inode, u⟩, -, hopen⟩ := bind_eq_ok.mp hopened
    exact (dirOpen_eq_ok hopen).2.1
  refine sound_of_zeros hinv (.inl rfl) (root_entries b) hquiet ?_ ⟨i, hi, ?_, ?_, ?_⟩ hpos
  · rw [hd.content, hfresh.empty]
  · rw [hs, b.root_sector]
  · exact hinv.kept_of_sector hi (.inr hs)
  · exact hinv.table.writable _ _ hi (.inr hs)

lemma sound_of_fresh {x : Machine} {sector p : Nat} {s₁ s₂ s₃ : Fs} (hreach : system.Reachable x)
    (hq : x.fs.mallocs = []) (hroom : n * entrySize < 2147483648)
    (halloc : freeMapAllocate x.fs 1 = .ok (some sector, s₁)) (hcreate : dirCreate s₁ sector n = .ok (true, s₂))
    (hinode : inodeOpen s₂ sector = .ok (some p, s₃)) (hopened : dirOpen s₃ (some p) = .ok (some dir, s)) :
    DirMachine.Sound ⟨s, dir, [], ∅⟩ n := by
  obtain ⟨b, held, hlive, -⟩ := reachable_good hreach
  obtain ⟨r, t₁, hrun₁, hinv₁, hst₁, -, -, -, hres⟩ := hlive.inv.allocate 1
  cases hrun₁.symm.trans halloc
  have hlength : toInt32 (wrap (n * entrySize)) = (n * entrySize : Nat) := by
    rw [wrap_of_lt (by omega), toInt32_of_lt hroom]
  obtain ⟨ok, t₂, hrun₂, htab₂, hst₂, -, -, hgood⟩ := hinv₁.create (hres sector rfl) hroom
  rw [dirCreate, hlength] at hcreate
  cases hrun₂.symm.trans hcreate
  obtain ⟨o, rfl, hl, hnew, hinv₂, hz, -⟩ := hgood rfl
  have hq₂ := hst₂.quiet (hst₁.quiet hq)
  have hclosed : ∀ p j, s₂.inode p = some j → o.sector ≠ j.sector := fun p j hj =>
    hinv₁.closed_of_notMem hnew p j (htab₂.inode ▸ hj)
  rcases hinv₂.inodeOpen_cases (o := o) (Books.file_mem List.mem_cons_self) with
    ⟨q, i, hi, hs, -⟩ | ⟨-, ms, ⟨hm, -⟩ | ⟨hm, hrun⟩⟩
  · exact (hclosed q i hi hs.symm).elim
  · cases (malloc_quiet hm hq₂).1
  · cases hrun.symm.trans hinode
    have hms : s₂.mallocs = [] → ms = [] := fun he => (malloc_quiet hm he).2
    obtain ⟨hp, hpos, rfl⟩ := dirOpen_eq_ok hopened
    have hinode : dir.inode = s₂.next := (Option.some.inj hp).symm
    have hinv₃ := (hinv₂.opened (Books.file_mem List.mem_cons_self) hclosed hms).with_mallocs
      (malloc (s₂.opened ms o).mallocs).2
    rw [← hinode] at hinv₃
    refine sound_of_zeros hinv₃ (.inr List.mem_cons_self) (by rw [hl, Nat.mul_comm]) ?_ ?_
      ⟨_, (Inv.opened_inode s₂ ms o _).trans (if_pos hinode), rfl, rfl, rfl⟩ hpos
    · change (malloc ms).2 = []
      rw [hms hq₂]
      rfl
    · exact ((SameDisk.opened s₂ o hms).content o).trans (by rw [hz, hl])

lemma reachable_sound {x : DirMachine} (h : (directorySystem n).Reachable x) : x.Sound n := by
  refine h.invariant (I := fun x => x.Sound n) ?_ ?_
  · rintro ⟨s, dir, held, m⟩ ⟨hcreated, rfl, rfl⟩
    cases hcreated with
    | fresh hreach hq hroom halloc hcreate hinode hopened =>
      exact sound_of_fresh hreach hq hroom halloc hcreate hinode hopened
    | root hformat hopened => exact sound_of_root hformat hopened
  · intro x op y hx hnext
    by_cases hl : x.Legal op
    · obtain ⟨r, z, hrun, hz, -⟩ := hx.call hl
      rw [directorySystem_next, if_pos hl, hrun] at hnext
      cases hnext
      exact hz
    · rw [directorySystem_next, if_neg hl] at hnext
      cases hnext

theorem directory_behaves_as_map {x : DirMachine} (h : (directorySystem n).Reachable x) :
    (∀ op, x.Legal op → ∃ r y, x.call op = .ok (r, y) ∧ (directorySystem n).next x op = some y ∧
      Meets n x.map y op r) ∧
    ∀ fuel > n, ∃ names, readNames fuel x.fs { x.dir with pos := 0 } = .ok (names, x.fs) ∧ names.Nodup ∧
      ∀ name, name ∈ names ↔ name ∈ x.map := by
  have hx := reachable_sound h
  refine ⟨fun op hl => ?_, fun fuel hf => ?_⟩
  · obtain ⟨r, y, hrun, -, hmeets⟩ := hx.call hl
    exact ⟨r, y, hrun, by rw [directorySystem_next, if_pos hl, hrun]; rfl, hmeets⟩
  · obtain ⟨b, rest, d, hdir, hopen, hm, -⟩ := hx
    exact ⟨x.fs.namesFrom d n 0, hdir.readNames_eq fuel (Nat.zero_le n) hf hopen rfl, hm.nodup_names,
      fun name => hm.mem_names⟩

def smallDirectory : Option DirMachine := do
  let m ← smallRun []
  let (sector, s) ← (freeMapAllocate m.fs 1).toOption
  let sector ← sector
  let (ok, s) ← (dirCreate s sector 2).toOption
  let (p, s) ← (inodeOpen s sector).toOption
  let p ← p
  let (dir, s) ← (dirOpen s (some p)).toOption
  let dir ← dir
  if ok ∧ m.fs.mallocs = [] then return ⟨s, dir, [], ∅⟩ else none

lemma smallDirectory_init {x : DirMachine} (h : smallDirectory = some x) : (directorySystem 2).init x := by
  simp only [smallDirectory, Option.bind_eq_bind, Option.bind_eq_some_iff] at h
  obtain ⟨m, hm, ⟨_, s₁⟩, h₁, sector, rfl, ⟨ok, s₂⟩, h₂, ⟨_, s₃⟩, h₃, p, rfl, ⟨_, s⟩, h₄, dir, rfl, h⟩ := h
  split at h
  · next hok =>
    obtain ⟨rfl, hq⟩ := hok
    cases h
    exact ⟨.fresh (smallRun_reachable hm).reachable hq (by decide) (toOption_eq_some h₁) (toOption_eq_some h₂)
      (toOption_eq_some h₃) (toOption_eq_some h₄), rfl, rfl⟩
  · cases h

theorem directory_behaves_as_map_full : ∃ x : DirMachine, (directorySystem 2).Reachable x ∧ x.map.keys.card = 2 ∧
    (∀ op, x.Legal op → ∃ r y, x.call op = .ok (r, y) ∧ (directorySystem 2).next x op = some y ∧
      Meets 2 x.map y op r) ∧
    ∀ fuel > 2, ∃ names, readNames fuel x.fs { x.dir with pos := 0 } = .ok (names, x.fs) ∧ names.Nodup ∧
      ∀ name, name ∈ names ↔ name ∈ x.map := by
  have hrun : ((smallDirectory.bind fun x => (directorySystem 2).exec x [.add nameA ⟨0, by decide⟩,
      .add nameB ⟨600, by decide⟩]).map fun x => x.map.keys.card) = some 2 := by
    decide +kernel
  obtain ⟨x, hx, hcard⟩ := Option.map_eq_some_iff.mp hrun
  obtain ⟨x₀, hx₀, hexec⟩ := Option.bind_eq_some_iff.mp hx
  have hreach := (System.Reachable.init (smallDirectory_init hx₀)).leads (System.exec_leads hexec)
  exact ⟨x, hreach, hcard, directory_behaves_as_map hreach⟩

end Pintos.Filesys
