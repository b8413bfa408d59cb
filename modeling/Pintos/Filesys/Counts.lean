import Pintos.Foundation.Runs
import Pintos.Filesys.Mount

/-! Any sequence of opening, denying, removing and closing through files and directories, and the
counts that the open inodes keep of them. -/

namespace Pintos.Filesys

open Pintos.Foundation Pintos.Kernel

inductive HandleOp
  | freeMapOpenFile
  | fileOpen (sector : Nat)
  | fileReopen (f : Nat)
  | fileDenyWrite (f : Nat)
  | fileAllowWrite (f : Nat)
  | fileClose (f : Option Nat)
  | dirOpen (sector : Nat)
  | dirClose (dir : Option Dir)
  | inodeRemove (p : Nat)

/-- The file system with the files and directories that were opened and not yet closed. -/
structure Handles where
  fs : Fs
  files : List Nat
  dirs : List Dir

def HandleOp.run (m : Handles) : HandleOp → Except Panic Handles
  | .freeMapOpenFile => do
    let (f, s) ← Filesys.freeMapOpenFile m.fs
    return { m with fs := s, files := f :: m.files }
  | .fileOpen sector => do
    let (inode, s) ← inodeOpen m.fs sector
    let (file, s) ← Filesys.fileOpen s inode
    return { m with fs := s, files := file.toList ++ m.files }
  | .fileReopen f => do
    let (file, s) ← Filesys.fileReopen m.fs f
    return { m with fs := s, files := file.toList ++ m.files }
  | .fileDenyWrite f => do return { m with fs := ← Filesys.fileDenyWrite m.fs f }
  | .fileAllowWrite f => do return { m with fs := ← Filesys.fileAllowWrite m.fs f }
  | .fileClose file => do
    let s ← Filesys.fileClose m.fs file
    return { m with fs := s, files := file.elim m.files m.files.erase }
  | .dirOpen sector => do
    let (inode, s) ← inodeOpen m.fs sector
    let (dir, s) ← Filesys.dirOpen s inode
    return { m with fs := s, dirs := dir.toList ++ m.dirs }
  | .dirClose dir => do
    let s ← Filesys.dirClose m.fs dir
    return { m with fs := s, dirs := dir.elim m.dirs m.dirs.erase }
  | .inodeRemove p => do return { m with fs := ← Filesys.inodeRemove m.fs p }

def Handles.onInode (m : Handles) (p f : Nat) : Bool := (m.fs.file f).any fun x => x.inode == p

def Handles.holders (m : Handles) (p : Nat) : Nat :=
  m.files.countP (m.onInode p) + m.dirs.countP fun dir => dir.inode == p

def Handles.deniers (m : Handles) (p : Nat) : Nat :=
  m.files.countP fun f => m.onInode p f && m.fs.denies f

def Handles.legal (m : Handles) : HandleOp → Bool
  | .freeMapOpenFile | .fileOpen _ | .dirOpen _ => true
  | .fileReopen f | .fileDenyWrite f | .fileAllowWrite f => m.files.contains f
  | .fileClose file => file.all m.files.contains
  | .dirClose dir => dir.all m.dirs.contains
  | .inodeRemove p => 0 < m.holders p

structure HandleCall where
  op : HandleOp
  mallocs : List Bool

def Handles.call (m : Handles) (c : HandleCall) : Except Panic Handles :=
  c.op.run { m with fs := { m.fs with mallocs := c.mallocs } }

/-- A call that panics ends the run. -/
def handleSystem : System Handles HandleCall where
  init m := Idle m.fs ∧ m.files = [] ∧ m.dirs = []
  next m c := if m.legal c.op then (m.call c).toOption else none

section Tables

variable {s t : Fs} {p n : Nat}

lemma sameTable_inodeWriteAt {buffer : List Byte} {size : Int} {offset : Nat}
    (h : inodeWriteAt s p buffer size offset = .ok (n, t)) : SameTable s t := by
  obtain ⟨i, -, h⟩ := bind_eq_ok.mp h
  split at h
  · cases h
    exact .refl s
  · obtain ⟨⟨n', disk, ms⟩, -, h⟩ := bind_eq_ok.mp h
    cases h
    exact .with_map s s.freeMap disk ms

lemma sameTable_freeMapRelease {sector cnt : Nat} (h : freeMapRelease s sector cnt = .ok t) :
    SameTable s t := by
  obtain ⟨all, -, h⟩ := bind_eq_ok.mp h
  obtain ⟨-, -, h⟩ := bind_eq_ok.mp h
  obtain ⟨c, -, h⟩ := bind_eq_ok.mp h
  have hc : SameTable s { s with freeMap := c } := .with_map s c s.disk s.mallocs
  dsimp only at h
  split at h
  · cases h
  · obtain ⟨⟨ok, u⟩, hu, h⟩ := bind_eq_ok.mp h
    obtain ⟨⟨n, v⟩, hv, hu⟩ := bind_eq_ok.mp hu
    obtain ⟨x, -, hv⟩ := bind_eq_ok.mp hv
    cases hu
    cases h
    exact hc.trans (sameTable_inodeWriteAt hv)

lemma sameTable_inodeRelease {i : Inode} (h : inodeRelease s i = .ok t) : SameTable s t := by
  rw [inodeRelease] at h
  split at h
  · obtain ⟨u, hu, h⟩ := bind_eq_ok.mp h
    exact (sameTable_freeMapRelease hu).trans (sameTable_freeMapRelease h)
  · cases h
    exact .refl s

end Tables

namespace Refs

variable {s t : Fs} {refs : List Nat} {p sector : Nat}

lemma sameTable (h : Refs s refs) (ht : SameTable s t) : Refs t refs :=
  h.congr ht.openInodes ht.inode ht.file ht.next

lemma opens {r : Option Nat} (h : Refs s refs) (hr : inodeOpen s sector = .ok (r, t)) :
    t.file = s.file ∧ Follows s t ∧ Refs t (r.toList ++ refs) := by
  rw [inodeOpen] at hr
  cases hf : s.findOpen sector with
  | some p =>
    obtain ⟨i, hi, -⟩ := h.findOpen_some hf
    simp only [hf, inodeReopen, inodeAt_eq hi, bind_ok, pure_eq_ok, Except.ok.injEq,
      Prod.mk.injEq] at hr
    obtain ⟨rfl, rfl⟩ := hr
    exact ⟨rfl, .setInode hi rfl rfl, h.reopen hi⟩
  | none =>
    simp only [hf] at hr
    split at hr
    · obtain ⟨block, -, hr⟩ := bind_eq_ok.mp hr
      cases hr
      refine ⟨rfl, ⟨Nat.le_succ _, fun q k hk => ?_⟩, ?_⟩
      · rw [Fs.setInode_inode] at hk
        split at hk
        · next hq =>
          cases hk
          exact .inr ⟨hq.ge, rfl⟩
        · exact .inl ⟨k, hk, rfl, rfl⟩
      · exact h.open_fresh (h.findOpen_none hf) rfl (fun _ => rfl) rfl rfl rfl
    · cases hr
      have hsame := SameTable.with_map s s.freeMap s.disk (malloc s.mallocs).2
      exact ⟨rfl, .of_sameTable hsame, h.sameTable hsame⟩

lemma closes (h : Refs s refs) (hp : p ∈ refs) (hr : inodeClose s (some p) = .ok t) :
    t.file = s.file ∧ Follows s t ∧ Refs t (refs.erase p) := by
  obtain ⟨i, hi⟩ := Option.ne_none_iff_exists'.mp (h.live p hp)
  simp only [inodeClose, inodeAt_eq hi, bind_ok] at hr
  split at hr
  · next hc =>
    obtain ⟨u, hu, hr⟩ := bind_eq_ok.mp hr
    simp only [pure_eq_ok, Except.ok.injEq] at hr
    subst hr
    have hsame := sameTable_inodeRelease hu
    have hin : ∀ q, (u.setInode p none).inode q = if q = p then none else s.inode q := by
      intro q
      rw [Fs.setInode_inode, hsame.inode]
      split
      · rfl
      · next hq => exact Fs.setInode_inode_of_ne _ _ _ hq
    exact ⟨hsame.file, .of_closed hsame.next hin,
      h.close_last hi hc hsame.openInodes hin hsame.file hsame.next⟩
  · next hc =>
    simp only [pure_eq_ok, Except.ok.injEq] at hr
    subst hr
    exact ⟨rfl, .setInode hi rfl rfl, h.close_shared hi hc⟩

end Refs

namespace Counted

variable {s t : Fs} {held : List (Nat × Nat)} {dirs : List Nat} {f p : Nat} {i : Inode} {inode : Option Nat}
  (h : Counted s held dirs)

include h

lemma sameTable (ht : SameTable s t) : Counted t held dirs :=
  h.keep (h.refs.sameTable ht) ht.file (.of_sameTable ht)

lemma with_mallocs (ms : List Bool) : Counted { s with mallocs := ms } held dirs :=
  h.sameTable (.with_map s s.freeMap s.disk ms)

lemma opens {sector : Nat} {r : Option Nat}
    (hr : inodeOpen s sector = .ok (r, t)) : Counted t held (r.toList ++ dirs) := by
  obtain ⟨hf, hfol, hrefs⟩ := h.refs.opens hr
  exact h.keep (by rwa [List.append_assoc]) hf hfol

lemma closes (hp : p ∈ dirs) (hr : inodeClose s (some p) = .ok t) : Counted t held (dirs.erase p) := by
  obtain ⟨hf, hfol, hrefs⟩ := h.refs.closes (List.mem_append_left _ hp) hr
  exact h.keep (by rwa [List.erase_append_left _ hp] at hrefs) hf hfol

lemma reopens (hi : s.inode p = some i) :
    Counted (s.setInode p (some { i with openCnt := i.openCnt + 1 })) held (p :: dirs) :=
  h.keep (h.refs.reopen hi) rfl (.setInode hi rfl rfl)

lemma removes (hi : s.inode p = some i) :
    Counted (s.setInode p (some { i with removed := true })) held dirs := by
  have hc := h.refs.counted p i hi
  exact h.keep (h.refs.set hi { i with removed := true } rfl hc.1 hc.2 fun _ _ => rfl) rfl
    (.setInode hi rfl rfl)

omit h in
lemma gives_back (h : Counted s held (inode.toList ++ dirs))
    (hr : inodeClose s inode = .ok t) : Counted t held dirs := by
  cases inode with
  | none =>
    cases hr
    exact h
  | some p => simpa using h.closes (p := p) (by simp) hr

omit h in
lemma adds (h : Counted s held (p :: dirs)) :
    Counted (Fs.setFile { s with next := s.next + 1 } s.next
      (some { inode := p, pos := 0, denyWrite := false })) ((s.next, p) :: held) dirs := by
  refine h.add_handle ⟨le_rfl, if_pos rfl, fun g hg => if_neg hg⟩
    ⟨Nat.le_succ _, fun q k hk => .inl ⟨k, hk, rfl, rfl⟩⟩ ?_
  have hperm : (p :: dirs ++ held.map Prod.snd).Perm (dirs ++ p :: held.map Prod.snd) :=
    List.perm_middle.symm
  obtain ⟨hnodup, hlisted, hfresh, hcounted, hinj, hlive⟩ := h.refs.perm hperm
  refine ⟨hnodup, hlisted, fun q hq => ?_, hcounted, hinj, hlive⟩
  have hq : s.next + 1 ≤ q := hq
  rw [Fs.setFile_file, if_neg (by omega)]
  exact hfresh q (by omega)

omit h in
lemma fileOpens {i r : Option Nat} (h : Counted s held (i.toList ++ dirs))
    (hr : fileOpen s i = .ok (r, t)) :
    ∃ held', Counted t held' dirs ∧ held'.map Prod.fst = r.toList ++ held.map Prod.fst := by
  have hm := h.with_mallocs (malloc s.mallocs).2
  rw [fileOpen] at hr
  dsimp only at hr
  split at hr
  · next p _ _ =>
    cases hr
    exact ⟨_, hm.adds, rfl⟩
  · obtain ⟨u, hu, hr⟩ := bind_eq_ok.mp hr
    cases hr
    exact ⟨held, hm.gives_back hu, rfl⟩

omit h in
lemma dirOpens {r : Option Dir} (h : Counted s held (inode.toList ++ dirs))
    (hr : dirOpen s inode = .ok (r, t)) :
    Counted t held ((r.map Dir.inode).toList ++ dirs) := by
  have hm := h.with_mallocs (malloc s.mallocs).2
  rw [dirOpen] at hr
  dsimp only at hr
  split at hr
  · cases hr
    exact hm
  · obtain ⟨u, hu, hr⟩ := bind_eq_ok.mp hr
    cases hr
    exact hm.gives_back hu

lemma drops (hm : (f, p) ∈ held) (hd : s.denies f = false)
    (hr : inodeClose s (some p) = .ok t) : Counted (t.setFile f none) (held.erase (f, p)) dirs := by
  have hmem : p ∈ dirs ++ held.map Prod.snd :=
    List.mem_append_right _ (List.mem_map.mpr ⟨(f, p), hm, rfl⟩)
  obtain ⟨hf, hfol, hrefs⟩ := h.refs.closes hmem hr
  have hperm : ((dirs ++ held.map Prod.snd).erase p).Perm
      (dirs ++ (held.erase (f, p)).map Prod.snd) := by
    have hsplit := ((List.perm_cons_erase hm).map Prod.snd).append_left dirs
    have hmid := (hsplit.trans List.perm_middle).erase p
    rwa [List.erase_cons_head] at hmid
  exact h.drop hm hd hf hfol ((hrefs.perm hperm).setFile ((h.lt_next hm).1.trans_le hfol.next) none)

lemma fileCloses (hm : (f, p) ∈ held)
    (hr : fileClose s (some f) = .ok t) : Counted t (held.erase (f, p)) dirs := by
  obtain ⟨x, hx, rfl⟩ := h.file f p hm
  obtain ⟨u, hu, hmark⟩ := h.allowsWrite hm hx
  have hfile : u.file f = some { x with denyWrite := false } := by
    rw [(hmark.marks hx).file, Fs.setFile_file, if_pos rfl]
  simp only [fileClose, hu, fileAt_eq hfile, bind_ok] at hr
  obtain ⟨v, hv, hr⟩ := bind_eq_ok.mp hr
  simp only [pure_eq_ok, Except.ok.injEq] at hr
  subst hr
  exact (hmark.counted h hm hx).drops hm (by rw [Fs.denies, hfile, Option.any_some]) hv

end Counted

section Steps

variable {m m' : Handles} {held : List (Nat × Nat)} {f : Nat}

section

variable (h : Counted m.fs held (m.dirs.map Dir.inode))

include h

lemma onInode_eq {p : Nat} (hm : (f, p) ∈ held) (q : Nat) : m.onInode q f = (p == q) := by
  obtain ⟨x, hx, rfl⟩ := h.file f p hm
  rw [Handles.onInode, hx, Option.any_some]

lemma holders_eq (hk : held.map Prod.fst = m.files)
    (p : Nat) : m.holders p = (m.dirs.map Dir.inode ++ held.map Prod.snd).count p := by
  have hfiles : m.files.countP (m.onInode p) = (held.map Prod.snd).count p := by
    rw [← hk, List.count_eq_countP, List.countP_map, List.countP_map]
    apply List.countP_congr
    rintro ⟨f, q⟩ hm
    simp only [Function.comp_apply, onInode_eq h hm]
  have hdirs : m.dirs.countP (fun dir => dir.inode == p) = (m.dirs.map Dir.inode).count p := by
    rw [List.count_eq_countP, List.countP_map]
    rfl
  rw [Handles.holders, hfiles, hdirs, List.count_append, Nat.add_comm]

lemma deniers_eq (hk : held.map Prod.fst = m.files) (p : Nat) : m.deniers p = m.fs.deniers held p := by
  rw [Handles.deniers, ← hk, List.countP_map, Fs.deniers]
  apply List.countP_congr
  rintro ⟨f, q⟩ hm
  simp only [Function.comp_apply, onInode_eq h hm]

end

def Tallied (m : Handles) : Prop :=
  ∃ held, Counted m.fs held (m.dirs.map Dir.inode) ∧ held.map Prod.fst = m.files

lemma exists_held (hk : held.map Prod.fst = m.files) (hf : f ∈ m.files) :
    ∃ p, (f, p) ∈ held := by
  rw [← hk] at hf
  obtain ⟨⟨g, p⟩, hm, rfl⟩ := List.mem_map.mp hf
  exact ⟨p, hm⟩

lemma tallied_run {op : HandleOp} (h : Tallied m) (hl : m.legal op = true)
    (hr : op.run m = .ok m') : Tallied m' := by
  obtain ⟨held, hc, hk⟩ := h
  cases op with
  | freeMapOpenFile =>
    obtain ⟨⟨f, s⟩, hs, hr⟩ := bind_eq_ok.mp hr
    obtain ⟨⟨inode, u⟩, hu, hs⟩ := bind_eq_ok.mp hs
    obtain ⟨⟨file, v⟩, hv, hs⟩ := bind_eq_ok.mp hs
    obtain ⟨held', hc', hk'⟩ := (hc.opens hu).fileOpens hv
    cases file with
    | none => cases hs
    | some g =>
      cases hs
      cases hr
      refine ⟨held', hc'.keep (hc'.refs.congr rfl rfl rfl rfl) rfl ⟨le_rfl, fun q k hq => ?_⟩,
        hk'.trans (by rw [hk]; rfl)⟩
      exact .inl ⟨k, hq, rfl, rfl⟩
  | fileOpen sector =>
    obtain ⟨⟨inode, u⟩, hu, hr⟩ := bind_eq_ok.mp hr
    obtain ⟨⟨file, v⟩, hv, hr⟩ := bind_eq_ok.mp hr
    obtain ⟨held', hc', hk'⟩ := (hc.opens hu).fileOpens hv
    cases hr
    exact ⟨held', hc', hk'.trans (by rw [hk])⟩
  | fileReopen f =>
    obtain ⟨⟨file, v⟩, hv, hr⟩ := bind_eq_ok.mp hr
    obtain ⟨p, hm⟩ := exists_held hk (by simpa [Handles.legal] using hl)
    obtain ⟨x, hx, rfl⟩ := hc.file f p hm
    obtain ⟨i, hi⟩ := hc.inode hm
    simp only [fileReopen, fileAt_eq hx, bind_ok, inodeReopen, inodeAt_eq hi, pure_eq_ok] at hv
    obtain ⟨held', hc', hk'⟩ := Counted.fileOpens (i := some x.inode) (hc.reopens hi) hv
    cases hr
    exact ⟨held', hc', hk'.trans (by rw [hk])⟩
  | fileDenyWrite f =>
    obtain ⟨t, ht, hr⟩ := bind_eq_ok.mp hr
    obtain ⟨p, hm⟩ := exists_held hk (by simpa [Handles.legal] using hl)
    obtain ⟨x, hx, -⟩ := hc.file f p hm
    obtain ⟨t', ht', hmark⟩ := hc.deniesWrite hm hx
    cases ht.symm.trans ht'
    cases hr
    exact ⟨held, hmark.counted hc hm hx, hk⟩
  | fileAllowWrite f =>
    obtain ⟨t, ht, hr⟩ := bind_eq_ok.mp hr
    obtain ⟨p, hm⟩ := exists_held hk (by simpa [Handles.legal] using hl)
    obtain ⟨x, hx, -⟩ := hc.file f p hm
    obtain ⟨t', ht', hmark⟩ := hc.allowsWrite hm hx
    cases ht.symm.trans ht'
    cases hr
    exact ⟨held, hmark.counted hc hm hx, hk⟩
  | fileClose file =>
    obtain ⟨t, ht, hr⟩ := bind_eq_ok.mp hr
    cases hr
    cases file with
    | none =>
      cases ht
      exact ⟨held, hc, hk⟩
    | some f =>
      obtain ⟨p, hm⟩ := exists_held hk (by simpa [Handles.legal] using hl)
      exact ⟨held.erase (f, p), hc.fileCloses hm ht, by
        rw [map_erase_fst hc.keys hm, hk, Option.elim_some]⟩
  | dirOpen sector =>
    obtain ⟨⟨inode, u⟩, hu, hr⟩ := bind_eq_ok.mp hr
    obtain ⟨⟨dir, v⟩, hv, hr⟩ := bind_eq_ok.mp hr
    have hc' := (hc.opens hu).dirOpens hv
    cases hr
    refine ⟨held, ?_, hk⟩
    rw [List.map_append]
    cases dir with
    | none => exact hc'
    | some d => exact hc'
  | dirClose dir =>
    obtain ⟨t, ht, hr⟩ := bind_eq_ok.mp hr
    cases hr
    cases dir with
    | none =>
      cases ht
      exact ⟨held, hc, hk⟩
    | some d =>
      have hd : d ∈ m.dirs := by simpa [Handles.legal] using hl
      have hc' := hc.closes (List.mem_map.mpr ⟨d, hd, rfl⟩) ht
      have hperm : ((m.dirs.map Dir.inode).erase d.inode).Perm ((m.dirs.erase d).map Dir.inode) := by
        have hsplit := ((List.perm_cons_erase hd).map Dir.inode).erase d.inode
        rwa [List.map_cons, List.erase_cons_head] at hsplit
      exact ⟨held, hc'.keep (hc'.refs.perm (hperm.append_right _)) rfl (.of_sameTable (.refl _)), hk⟩
  | inodeRemove p =>
    obtain ⟨t, ht, hr⟩ := bind_eq_ok.mp hr
    cases hr
    have hpos : 0 < m.holders p := by simpa [Handles.legal] using hl
    rw [holders_eq hc hk, List.count_pos_iff] at hpos
    obtain ⟨i, hi⟩ := Option.ne_none_iff_exists'.mp (hc.refs.live p hpos)
    simp only [inodeRemove, inodeAt_eq hi, bind_ok, pure_eq_ok, Except.ok.injEq] at ht
    subst ht
    exact ⟨held, hc.removes hi, hk⟩

end Steps

structure CountsRight (m : Handles) : Prop where
  nodup : m.fs.openInodes.Nodup
  onePerSector : ∀ p q i j, m.fs.inode p = some i → m.fs.inode q = some j → i.sector = j.sector → p = q
  allocated : ∀ p, m.fs.inode p ≠ none ↔ p ∈ m.fs.openInodes
  listed : ∀ p, p ∈ m.fs.openInodes ↔ 0 < m.holders p
  opened : ∀ p i, m.fs.inode p = some i → i.openCnt = m.holders p ∧ 0 < i.openCnt
  denied : ∀ p i, m.fs.inode p = some i → i.denyWriteCnt = m.deniers p ∧ i.denyWriteCnt ≤ i.openCnt
  allows : ∀ f ∈ m.files, (∃ t, fileDenyWrite m.fs f = .ok t) ∧ ∃ t, fileAllowWrite m.fs f = .ok t

lemma Tallied.countsRight {m : Handles} (h : Tallied m) : CountsRight m := by
  obtain ⟨held, hc, hk⟩ := h
  refine ⟨hc.refs.nodup, hc.refs.inj, fun p => (hc.refs.listed p).symm, fun p => ?_, fun p i hi => ?_,
    fun p i hi => ?_, fun f hf => ?_⟩
  · rw [holders_eq hc hk, List.count_pos_iff, hc.refs.listed]
    refine ⟨fun hne => ?_, hc.refs.live p⟩
    obtain ⟨i, hi⟩ := Option.ne_none_iff_exists'.mp hne
    exact List.count_pos_iff.mp (hc.refs.counted p i hi).2
  · obtain ⟨hcnt, hpos⟩ := hc.refs.counted p i hi
    rw [holders_eq hc hk, hcnt]
    exact ⟨rfl, by omega⟩
  · have hle : m.deniers p ≤ m.holders p := by
      apply Nat.le_add_right_of_le
      apply List.countP_mono_left
      intro f _ hf
      exact (Bool.and_eq_true_iff.mp hf).1
    rw [holders_eq hc hk] at hle
    rw [(hc.refs.counted p i hi).1, hc.denied p i hi, ← deniers_eq hc hk]
    exact ⟨rfl, by omega⟩
  · obtain ⟨p, hm⟩ := exists_held hk hf
    obtain ⟨x, hx, -⟩ := hc.file f p hm
    obtain ⟨t, ht, -⟩ := hc.deniesWrite hm hx
    obtain ⟨u, hu, -⟩ := hc.allowsWrite hm hx
    exact ⟨⟨t, ht⟩, u, hu⟩

lemma legal_with_mallocs (m : Handles) (ms : List Bool) (op : HandleOp) :
    Handles.legal { m with fs := { m.fs with mallocs := ms } } op = m.legal op := by
  cases op <;> rfl

lemma Tallied.next {m m' : Handles} {c : HandleCall} (h : Tallied m)
    (hs : handleSystem.next m c = some m') : Tallied m' := by
  simp only [handleSystem, Option.ite_none_right_eq_some] at hs
  obtain ⟨hl, hs⟩ := hs
  obtain ⟨held, hc, hk⟩ := h
  have hm : Tallied { m with fs := { m.fs with mallocs := c.mallocs } } :=
    ⟨held, hc.with_mallocs c.mallocs, hk⟩
  cases hr : m.call c with
  | error e =>
    rw [hr] at hs
    cases hs
  | ok x =>
    rw [hr] at hs
    cases hs
    exact tallied_run hm ((legal_with_mallocs m c.mallocs c.op).trans hl) hr

lemma tallied_reachable {m : Handles} (h : handleSystem.Reachable m) : Tallied m := by
  refine h.invariant (I := Tallied) ?_ fun _ _ _ hi hs => hi.next hs
  rintro m ⟨hidle, hfiles, hdirs⟩
  refine ⟨[], ⟨⟨?_, fun p => ?_, fun p _ => ⟨hidle.inode p, hidle.file p⟩, fun p i hi => ?_,
    fun p q i j hi => ?_, ?_⟩, List.nodup_nil, ?_, fun p i hi => ?_⟩, hfiles.symm⟩
  · simp [hidle.openInodes]
  · simp [hidle.openInodes, hidle.inode p]
  · simp [hidle.inode p] at hi
  · simp [hidle.inode p] at hi
  · simp [hdirs]
  · simp
  · simp [hidle.inode p] at hi

theorem open_inodes_count_handles {m : Handles} (h : handleSystem.Reachable m) :
    CountsRight m ∧ ∀ c m', handleSystem.next m c = some m' → ∀ p ∈ m.fs.openInodes,
      (p ∉ m'.fs.openInodes ∧ m'.fs.inode p = none ↔ m'.holders p = 0) := by
  refine ⟨(tallied_reachable h).countsRight, fun c m' hs p _ => ?_⟩
  have hright := ((tallied_reachable h).next hs).countsRight
  constructor
  · rintro ⟨hno, -⟩
    have hpos := mt (hright.listed p).mpr hno
    omega
  · intro hzero
    have hno : p ∉ m'.fs.openInodes := by
      intro hp
      have hpos := (hright.listed p).mp hp
      omega
    exact ⟨hno, not_not.mp (mt (hright.allocated p).mp hno)⟩

theorem open_inodes_count_three_handles :
    ∃ m, handleSystem.Reachable m ∧ m.files = [2, 1] ∧ m.dirs = [⟨0, 0⟩] ∧ m.fs.openInodes = [0] ∧
      m.deniers 0 = 1 ∧ CountsRight m := by
  have hrun : (handleSystem.exec ⟨boot (fun _ => 0) 4 (by decide) [], [], []⟩
      [⟨.fileOpen 2, []⟩, ⟨.fileDenyWrite 1, []⟩, ⟨.dirOpen 2, []⟩, ⟨.fileReopen 1, [false]⟩,
        ⟨.fileReopen 1, []⟩, ⟨.fileOpen 3, []⟩, ⟨.inodeRemove 0, []⟩, ⟨.fileClose (some 4), []⟩]).map
          (fun m => (m.files, m.dirs, m.fs.openInodes, m.deniers 0)) =
      some ([2, 1], [⟨0, 0⟩], [0], 1) := by
    decide +kernel
  obtain ⟨m, hm, hend⟩ := Option.map_eq_some_iff.mp hrun
  simp only [Prod.mk.injEq] at hend
  obtain ⟨hfiles, hdirs, hopen, hdeny⟩ := hend
  have hinit : handleSystem.init ⟨boot (fun _ => 0) 4 (by decide) [], [], []⟩ :=
    ⟨⟨rfl, fun _ => rfl, fun _ => rfl⟩, rfl, rfl⟩
  have hr := System.exec_reachable (.init hinit) hm
  exact ⟨m, hr, hfiles, hdirs, hopen, hdeny, (open_inodes_count_handles hr).1⟩

end Pintos.Filesys
