import Pintos.Filesys.Calls

/-! Files held open, and the counts that their inodes keep of them. -/

namespace Pintos.Filesys

open Pintos.Foundation Pintos.Kernel

variable {x : File}

def Fs.denies (s : Fs) (f : Nat) : Bool := (s.file f).any File.denyWrite

def Fs.deniers (s : Fs) (held : List (Nat × Nat)) (p : Nat) : Nat :=
  held.countP fun h => h.2 == p && s.denies h.1

variable {s t : Fs} {held : List (Nat × Nat)} {f p : Nat}

lemma deniers_congr (h : ∀ g q, (g, q) ∈ held → t.file g = s.file g) (p : Nat) :
    t.deniers held p = s.deniers held p := by
  apply List.countP_congr
  rintro ⟨g, q⟩ hm
  simp only [Fs.denies, h g q hm]

lemma deniers_split (s : Fs) (hm : (f, p) ∈ held) (q : Nat) :
    s.deniers held q = s.deniers (held.erase (f, p)) q + if (p == q && s.denies f) = true then 1 else 0 := by
  rw [Fs.deniers, (List.perm_cons_erase hm).countP_eq, List.countP_cons, Fs.deniers]

section

variable (hk : (held.map Prod.fst).Nodup) (hm : (f, p) ∈ held)

include hk hm

lemma key_notMem_erase : f ∉ (held.erase (f, p)).map Prod.fst := by
  have hp := ((List.perm_cons_erase hm).map Prod.fst).nodup_iff.mp hk
  rw [List.map_cons, List.nodup_cons] at hp
  exact hp.1

lemma deniers_setFile (x : File) (q : Nat) :
    (s.setFile f (some x)).deniers held q = s.deniers (held.erase (f, p)) q +
      if (p == q && x.denyWrite) = true then 1 else 0 := by
  have hself : (s.setFile f (some x)).denies f = x.denyWrite := by
    rw [Fs.denies, Fs.setFile_file, if_pos rfl, Option.any_some]
  have hrest : (s.setFile f (some x)).deniers (held.erase (f, p)) q = s.deniers (held.erase (f, p)) q := by
    apply deniers_congr
    intro g r hg
    rw [Fs.setFile_file, if_neg]
    rintro rfl
    exact key_notMem_erase hk hm (List.mem_map.mpr ⟨_, hg, rfl⟩)
  rw [deniers_split _ hm, hself, hrest]

lemma denied_recount (hx : s.file f = some x) {i : Inode} (hi : s.inode p = some i)
    (hden : ∀ q j, s.inode q = some j → j.denyWriteCnt = s.deniers held q) (deny : Bool) {n : Int}
    (hn : n - (if deny = true then 1 else 0) = i.denyWriteCnt - if x.denyWrite = true then 1 else 0)
    {q : Nat} {j : Inode} (hj : ((s.setFile f (some { x with denyWrite := deny })).setInode p
      (some { i with denyWriteCnt := n })).inode q = some j) :
    j.denyWriteCnt = Fs.deniers ((s.setFile f (some { x with denyWrite := deny })).setInode p
      (some { i with denyWriteCnt := n })) held q := by
  have hself : s.denies f = x.denyWrite := by rw [Fs.denies, hx, Option.any_some]
  have hd : Fs.deniers ((s.setFile f (some { x with denyWrite := deny })).setInode p
      (some { i with denyWriteCnt := n })) held q = _ :=
    deniers_setFile hk hm { x with denyWrite := deny } q
  have hs := deniers_split s hm q
  rw [hself] at hs
  rw [hd]
  rw [Fs.setInode_inode] at hj
  by_cases hq : q = p
  · subst hq
    rw [if_pos rfl] at hj
    cases hj
    have hold := hden q i hi
    simp only [BEq.rfl, Bool.true_and] at hs ⊢
    split at hs <;> split <;> simp_all <;> omega
  · have hpq : (p == q) = false := by simpa using Ne.symm hq
    rw [if_neg hq] at hj
    have hold := hden q j hj
    simp only [hpq, Bool.false_and, Bool.false_eq_true, if_false] at hs ⊢
    rw [hold, hs]

omit hk hm in
lemma deniers_le_count (hm : (f, p) ∈ held) (hf : s.denies f = false) :
    s.deniers held p + 1 ≤ (held.map Prod.snd).count p := by
  have hle : s.deniers (held.erase (f, p)) p ≤ ((held.erase (f, p)).map Prod.snd).count p := by
    rw [List.count_eq_countP, List.countP_map]
    apply List.countP_mono_left
    intro g _ hg
    exact (Bool.and_eq_true_iff.mp hg).1
  have hsplit := deniers_split s hm p
  rw [hf, Bool.and_false] at hsplit
  rw [((List.perm_cons_erase hm).map Prod.snd).count_eq, List.map_cons, List.count_cons_self]
  simp only [Bool.false_eq_true, if_false] at hsplit
  omega

omit hk hm in
lemma deniers_erase (hm : (f, p) ∈ held) (hf : s.denies f = false) (q : Nat) :
    s.deniers (held.erase (f, p)) q = s.deniers held q := by
  rw [deniers_split s hm, hf, Bool.and_false]
  rfl

lemma map_erase_fst : (held.erase (f, p)).map Prod.fst = (held.map Prod.fst).erase f := by
  induction held with
  | nil => cases hm
  | cons a held ih =>
    rw [List.map_cons, List.nodup_cons] at hk
    rcases List.mem_cons.mp hm with rfl | hm
    · rw [List.erase_cons_head, List.map_cons, List.erase_cons_head]
    · have hne : a.1 ≠ f := by
        rintro rfl
        exact hk.1 (List.mem_map.mpr ⟨_, hm, rfl⟩)
      have hne' : a ≠ (f, p) := fun he => hne (congrArg Prod.fst he)
      rw [List.erase_cons_tail (by simpa using hne'), List.map_cons, List.map_cons,
        List.erase_cons_tail (by simpa using hne), ih hk.2 hm]

end

structure Marks (s t : Fs) (f : Nat) (x : File) : Prop where
  disk : SameDisk s t
  next : t.next = s.next
  file : t.file = (s.setFile f (some x)).file
  tracks : ∀ q j, t.inode q = some j → ∃ i, s.inode q = some i ∧ i.sector = j.sector

lemma setFile_self (hx : s.file f = some x) : (s.setFile f (some x)).file = s.file := by
  funext g
  rw [Fs.setFile_file]
  split
  · next hg => rw [hg, hx]
  · rfl

lemma Marks.refl (hx : s.file f = some x) : Marks s s f x :=
  ⟨⟨rfl, rfl, rfl, rfl, id⟩, rfl, (setFile_self hx).symm, fun _ j hj => ⟨j, hj, rfl⟩⟩

lemma Marks.recount (s : Fs) (f : Nat) (x : File) {p : Nat} {i j : Inode} (hi : s.inode p = some i)
    (hs : i.sector = j.sector) : Marks s ((s.setFile f (some x)).setInode p (some j)) f x := by
  refine ⟨⟨rfl, rfl, rfl, rfl, id⟩, rfl, rfl, fun q k hk => ?_⟩
  rw [Fs.setInode_inode] at hk
  split at hk
  · next hq =>
    cases hk
    exact ⟨i, hq ▸ hi, hs⟩
  · exact ⟨k, hk, rfl⟩

lemma Refs.setFile {refs : List Nat} (h : Refs s refs) (hf : f < s.next) (x : Option File) :
    Refs (s.setFile f x) refs := by
  refine ⟨h.nodup, h.listed, fun q hq => ?_, h.counted, h.inj, h.live⟩
  have hq : s.next ≤ q := hq
  rw [Fs.setFile_file, if_neg (by omega)]
  exact h.fresh q hq

/-- `held` pairs each file held open with its inode, and `dirs` are the inodes opened otherwise. -/
structure Counted (s : Fs) (held : List (Nat × Nat)) (dirs : List Nat) : Prop where
  refs : Refs s (dirs ++ held.map Prod.snd)
  keys : (held.map Prod.fst).Nodup
  file : ∀ f p, (f, p) ∈ held → ∃ x, s.file f = some x ∧ x.inode = p
  denied : ∀ p i, s.inode p = some i → i.denyWriteCnt = s.deniers held p

namespace Counted

variable {dirs dirs' : List Nat} (h : Counted s held dirs)

include h

variable (hm : (f, p) ∈ held)

include hm

lemma inode : ∃ i, s.inode p = some i := by
  apply Option.ne_none_iff_exists'.mp
  apply h.refs.live
  exact List.mem_append_right _ (List.mem_map.mpr ⟨(f, p), hm, rfl⟩)

lemma lt_next : f < s.next ∧ p < s.next := by
  obtain ⟨x, hx, -⟩ := h.file f p hm
  obtain ⟨i, hi⟩ := h.inode hm
  refine ⟨?_, h.refs.lt_next hi⟩
  by_contra hn
  have hnone := (h.refs.fresh f (by omega)).2
  simp [hnone] at hx

variable {i : Inode} {q : Nat}

omit hm in
lemma denied_of_follows (hfol : Follows s t)
    (hf : ∀ g q, (g, q) ∈ held → t.file g = s.file g) (hi : t.inode q = some i) :
    i.denyWriteCnt = t.deniers held q := by
  rw [deniers_congr hf]
  rcases hfol.kept q i hi with ⟨k, hk, -, hw⟩ | ⟨hq, hw⟩
  · rw [← hw, h.denied q k hk]
  · have hnone : s.deniers held q = 0 := by
      apply List.countP_eq_zero.mpr
      rintro ⟨g, r⟩ hm
      have hlt := (h.lt_next hm).2
      simp only [Bool.and_eq_true, beq_iff_eq, not_and]
      intro he
      omega
    rw [hw, hnone]
    rfl

omit hm in
lemma keep (ht : Refs t (dirs' ++ held.map Prod.snd))
    (hf : t.file = s.file) (hfol : Follows s t) : Counted t held dirs' :=
  ⟨ht, h.keys, hf ▸ h.file, fun _ _ hi => h.denied_of_follows hfol (fun g _ _ => congrFun hf g) hi⟩

omit hm in
lemma add_handle (hh : Handle s t f p) (hfol : Follows s t)
    (ht : Refs t (dirs' ++ p :: held.map Prod.snd)) : Counted t ((f, p) :: held) dirs' := by
  have hold : ∀ g q, (g, q) ∈ held → t.file g = s.file g := by
    intro g q hm
    have hlt := (h.lt_next hm).1
    have hge := hh.fresh
    exact hh.others g (by omega)
  refine ⟨ht, ?_, fun g q hm => ?_, fun q i hi => ?_⟩
  · rw [List.map_cons, List.nodup_cons]
    refine ⟨fun hm => ?_, h.keys⟩
    obtain ⟨⟨g, q⟩, hg, rfl⟩ := List.mem_map.mp hm
    have hlt := (h.lt_next hg).1
    have hge := hh.fresh
    omega
  · rcases List.mem_cons.mp hm with he | hm
    · cases he
      exact ⟨_, hh.file, rfl⟩
    · rw [hold g q hm]
      exact h.file g q hm
  · have hnew : t.denies f = false := by rw [Fs.denies, hh.file]; rfl
    rw [h.denied_of_follows hfol hold hi, Fs.deniers, Fs.deniers, List.countP_cons, hnew, Bool.and_false]
    rfl

lemma eq_of_key (hq : (f, q) ∈ held) : q = p := by
  obtain ⟨x, hx, rfl⟩ := h.file f p hm
  obtain ⟨y, hy, rfl⟩ := h.file f q hq
  cases hx.symm.trans hy
  rfl

lemma setFile_file (hx : x.inode = p) {g : Nat}
    (hg : (g, q) ∈ held) : ∃ y, (s.setFile f (some x)).file g = some y ∧ y.inode = q := by
  rw [Fs.setFile_file]
  by_cases hgf : g = f
  · subst hgf
    exact ⟨x, if_pos rfl, hx.trans (h.eq_of_key hm hg).symm⟩
  · rw [if_neg hgf]
    exact h.file g q hg

lemma drop (hd : s.denies f = false) (hf : t.file = s.file)
    (hfol : Follows s t) (ht : Refs (t.setFile f none) (dirs' ++ (held.erase (f, p)).map Prod.snd)) :
    Counted (t.setFile f none) (held.erase (f, p)) dirs' := by
  have hfile : ∀ g q, (g, q) ∈ held.erase (f, p) → (t.setFile f none).file g = s.file g := by
    intro g q hg
    have hgf : g ≠ f := by
      rintro rfl
      exact key_notMem_erase h.keys hm (List.mem_map.mpr ⟨_, hg, rfl⟩)
    rw [Fs.setFile_file, if_neg hgf, hf]
  refine ⟨ht, h.keys.sublist (List.erase_sublist.map _), fun g q hg => ?_, fun q j hj => ?_⟩
  · rw [hfile g q hg]
    exact h.file g q (List.mem_of_mem_erase hg)
  · have hj : t.inode q = some j := hj
    rw [deniers_congr hfile, deniers_erase hm hd, h.denied_of_follows hfol (fun g _ _ => congrFun hf g) hj,
      deniers_congr fun g _ _ => congrFun hf g]

lemma deny_lt (hi : s.inode p = some i) (hf : s.denies f = false) : i.denyWriteCnt + 1 ≤ i.openCnt := by
  have hle := deniers_le_count hm hf
  rw [(h.refs.counted p i hi).1, h.denied p i hi, List.count_append]
  omega

end Counted

variable {deny : Bool}

/-- `f` has been given the flag `deny`, and its inode counts that. -/
inductive Remarks (s : Fs) (f p : Nat) (x : File) (deny : Bool) : Fs → Prop
  | kept (h : x.denyWrite = deny) : Remarks s f p x deny s
  | recounted {i : Inode} {n : Int} (hi : s.inode p = some i)
      (hn : n - (if deny = true then 1 else 0) = i.denyWriteCnt - if x.denyWrite = true then 1 else 0) :
      Remarks s f p x deny ((s.setFile f (some { x with denyWrite := deny })).setInode p
        (some { i with denyWriteCnt := n }))

lemma Remarks.marks (h : Remarks s f p x deny t) (hx : s.file f = some x) :
    Marks s t f { x with denyWrite := deny } := by
  cases h with
  | kept hd =>
    rw [← hd]
    exact .refl hx
  | recounted hi _ => exact .recount s f _ hi rfl

lemma Remarks.counted {dirs : List Nat} (hr : Remarks s f p x deny t) (h : Counted s held dirs)
    (hm : (f, p) ∈ held) (hx : s.file f = some x) : Counted t held dirs := by
  cases hr with
  | kept => exact h
  | @recounted i n hi hn =>
    refine ⟨?_, h.keys, fun g q hg => ?_, fun q j hj => denied_recount h.keys hm hx hi h.denied deny hn hj⟩
    · have hc := h.refs.counted p i hi
      have hset := h.refs.setFile (h.lt_next hm).1 (some { x with denyWrite := deny })
      exact hset.set hi { i with denyWriteCnt := n } rfl hc.1 hc.2 fun _ _ => rfl
    · obtain ⟨y, hy, hp⟩ := h.file f p hm
      cases hx.symm.trans hy
      exact h.setFile_file (x := { x with denyWrite := deny }) hm hp hg

namespace Counted

variable {dirs : List Nat}

lemma deniesWrite (h : Counted s held dirs) (hm : (f, p) ∈ held) (hx : s.file f = some x) :
    ∃ t, fileDenyWrite s f = .ok t ∧ Remarks s f p x true t := by
  obtain ⟨y, hy, rfl⟩ := h.file f p hm
  cases hx.symm.trans hy
  obtain ⟨i, hi⟩ := h.inode hm
  cases hd : x.denyWrite with
  | true =>
    refine ⟨s, ?_, .kept hd⟩
    simp only [fileDenyWrite, fileAt_eq hx, bind_ok, hd, if_true, pure_eq_ok]
  | false =>
    have hf : s.denies f = false := by rw [Fs.denies, hx, Option.any_some, hd]
    have hi' : (s.setFile f (some { x with denyWrite := true })).inode x.inode = some i := hi
    refine ⟨_, ?_, .recounted (n := i.denyWriteCnt + 1) hi (by simp [hd])⟩
    simp only [fileDenyWrite, fileAt_eq hx, bind_ok, hd, Bool.false_eq_true, if_false, inodeDenyWrite,
      inodeAt_eq hi', assertThat_pos (h.deny_lt hm hi hf), pure_eq_ok]

lemma allowsWrite (h : Counted s held dirs) (hm : (f, p) ∈ held) (hx : s.file f = some x) :
    ∃ t, fileAllowWrite s f = .ok t ∧ Remarks s f p x false t := by
  obtain ⟨y, hy, rfl⟩ := h.file f p hm
  cases hx.symm.trans hy
  obtain ⟨i, hi⟩ := h.inode hm
  cases hd : x.denyWrite with
  | false =>
    refine ⟨s, ?_, .kept hd⟩
    simp only [fileAllowWrite, fileAt_eq hx, bind_ok, hd, Bool.false_eq_true, if_false, pure_eq_ok]
  | true =>
    have hi' : (s.setFile f (some { x with denyWrite := false })).inode x.inode = some i := hi
    have hr : Remarks s f x.inode x false _ := .recounted (n := i.denyWriteCnt - 1) hi (by simp [hd])
    have hc := hr.counted h hm hx
    have hlt := hc.deny_lt hm (Fs.setInode_inode_self _ _ _) (by
      rw [Fs.denies, (hr.marks hx).file, Fs.setFile_file, if_pos rfl, Option.any_some])
    have hpos := hc.denied _ _ (Fs.setInode_inode_self _ _ _)
    simp only at hlt hpos
    refine ⟨_, ?_, hr⟩
    simp only [fileAllowWrite, fileAt_eq hx, bind_ok, hd, if_true, inodeAllowWrite, inodeAt_eq hi',
      assertThat_pos (show 0 < i.denyWriteCnt by omega),
      assertThat_pos (show i.denyWriteCnt ≤ i.openCnt by omega), pure_eq_ok]

end Counted

end Pintos.Filesys
