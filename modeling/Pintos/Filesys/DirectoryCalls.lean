import Pintos.Filesys.DirectoryMaps

/-! What each directory call makes of the map that the directory stands for. -/

namespace Pintos.Filesys

open Pintos.Foundation Pintos.Kernel

variable {s t : Fs} {b b' : Books} {refs refs' : List Nat} {d o : Obj} {n p : Nat} {i : Inode} {dir : Dir}
  {name : Name} {m : DirMap}

namespace Directory

variable (h : Directory s b refs d n)

include h

lemma perm (hp : refs.Perm refs') : Directory s b refs' d n :=
  { h with inv := h.inv.perm hp }

lemma retable (hinv : Inv t b refs') (hd : SameDisk s t) (hg : ∀ q j, t.inode q = some j → j.removed = true →
      ∃ j', s.inode q = some j' ∧ j'.removed = true ∧ j'.sector = j.sector) : Directory t b refs' d n where
  inv := hinv
  mem := h.mem
  length := h.length
  quiet := hd.quiet h.quiet
  lists := by
    refine h.lists.step (fun k hk => h.slot_of_content (hd.content d) hk) rfl (hd.content b.root)
      (fun _ ho _ => ho) fun q j hj hr k hk hu => ?_
    obtain ⟨j', hj', hr', hs⟩ := hg q j hj hr
    rw [← hs]
    exact h.lists.gone q j' hj' hr' k hk hu

lemma opens (hopen : OpenDir s d dir) (ho : o ∈ b.files) :
    ∃ p t, inodeOpen s o.sector = .ok (some p, t) ∧ Directory t b (p :: refs) d n ∧ OpenDir t d dir ∧
      (∃ j, t.inode p = some j ∧ j.sector = o.sector) ∧ t.disk = s.disk := by
  obtain ⟨i₀, hi₀, hs₀, hr₀, hw₀⟩ := hopen
  rcases h.inv.inodeOpen_cases (Books.file_mem ho) with ⟨p, i, hi, hs, hrun⟩ | ⟨hn, ms, ⟨hm, -⟩ | ⟨hm, hrun⟩⟩
  · refine ⟨p, _, hrun, h.retable (h.inv.reopened hi) (.setInode s p _) fun q j hj hr => ?_, ?_,
      ⟨_, Fs.setInode_inode_self _ _ _, hs⟩, rfl⟩
    · rcases Fs.setInode_eq_some hj with ⟨rfl, ⟨⟩⟩ | ⟨-, hj⟩
      · exact ⟨i, hi, hr, rfl⟩
      · exact ⟨j, hj, hr, rfl⟩
    · by_cases hq : dir.inode = p
      · subst hq
        cases hi₀.symm.trans hi
        exact ⟨_, Fs.setInode_inode_self _ _ _, hs₀, hr₀, hw₀⟩
      · exact ⟨i₀, by rw [Fs.setInode_inode_of_ne _ _ _ hq, hi₀], hs₀, hr₀, hw₀⟩
  · cases (malloc_quiet hm h.quiet).1
  · have hq : s.mallocs = [] → ms = [] := fun he => (malloc_quiet hm he).2
    refine ⟨s.next, _, hrun, h.retable (h.inv.opened (Books.file_mem ho) hn hq) (.opened s o hq)
      fun q j hj hr => ?_, ⟨i₀, ?_, hs₀, hr₀, hw₀⟩, ⟨_, (Inv.opened_inode s ms o _).trans (if_pos rfl), rfl⟩, rfl⟩
    · rcases Fs.setInode_eq_some hj with ⟨-, ⟨⟩⟩ | ⟨-, hj⟩
      · cases hr
      · exact ⟨j, hj, hr, rfl⟩
    · rw [Inv.opened_inode, if_neg (Nat.ne_of_lt (h.inv.table.lt_next hi₀)), hi₀]

lemma marks (hi : s.inode p = some i) (ho : o ∈ b.files) (hs : o.sector = i.sector) (hu : Unnamed s b i.sector)
    (hl : ∀ k < n, entryInUse (s.slot d k) = true → entrySector (s.slot d k) ≠ i.sector) :
    Directory (s.setInode p (some { i with removed := true })) b refs d n where
  inv := h.inv.mark hi ho hs hu
  mem := h.mem
  length := h.length
  quiet := h.quiet
  lists := by
    refine h.lists.step (fun _ _ => rfl) rfl rfl (fun _ ho _ => ho) fun q j hj hr k hk hu' => ?_
    rcases Fs.setInode_eq_some hj with ⟨rfl, ⟨⟩⟩ | ⟨-, hj⟩
    · exact hl k hk hu'
    · exact h.lists.gone q j hj hr k hk hu'

lemma removed_of_close (hi : s.inode p = some i) (hrun : inodeClose s (some p) = .ok t)
    (hfol : Follows s t) {j : Inode} (hj : t.inode p = some j) (hr : j.removed = true) :
    i.removed = true ∧ i.sector = j.sector := by
  obtain ⟨i', hi', hs, -⟩ := hfol.old (h.inv.table.lt_next hi) hj
  cases hi.symm.trans hi'
  refine ⟨?_, hs⟩
  by_contra hn
  by_cases hc : i.openCnt - 1 = 0
  · cases (Inv.inodeClose_kept hi hc (eq_false_of_ne_true hn)).symm.trans hrun
    rw [closed_inode, if_pos rfl] at hj
    cases hj
  · cases (Inv.inodeClose_shared hi hc).symm.trans hrun
    rw [Fs.setInode_inode_self] at hj
    cases hj
    exact hn hr

variable (hopen : OpenDir s d dir)

include hopen

lemma closes (hp : p ∈ refs) (hne : p ≠ dir.inode) :
    ∃ t b', inodeClose s (some p) = .ok t ∧ Directory t b' (refs.erase p) d n ∧ OpenDir t d dir ∧
      ∀ k < n, t.slot d k = s.slot d k := by
  obtain ⟨i, hi⟩ := Option.ne_none_iff_exists'.mp (h.inv.table.live p (List.mem_cons_of_mem _ hp))
  obtain ⟨i₀, hi₀, hs₀, hopen'⟩ := hopen
  obtain ⟨t, b', hrun, hinv, hst, -, hfol, hkeep, hset⟩ := h.inv.closes hp
  have hslots : ∀ k < n, t.slot d k = s.slot d k := fun k hk => h.slot_of_content (h.content_of_steady hst) hk
  have hother : i.sector ≠ d.sector := fun hs =>
    hne (h.inv.table.inj p dir.inode i i₀ hi hi₀ (hs.trans hs₀.symm))
  have hbooks : b'.root = b.root ∧ (d = b'.root ∨ d ∈ b'.files) ∧ ∀ o ∈ b.files,
      (∃ k < n, entryInUse (s.slot d k) = true ∧ o.sector = entrySector (s.slot d k)) → o ∈ b'.files := by
    rcases hset with rfl | ⟨o, ho, rfl, i', hi', hs, hr, -⟩
    · exact ⟨rfl, h.mem, fun _ ho _ => ho⟩
    · cases hi.symm.trans hi'
      refine ⟨rfl, h.mem.imp id fun hd => (List.mem_erase_of_ne ?_).mpr hd, ?_⟩
      · rintro rfl
        exact hother hs
      · rintro o' ho' ⟨k, hk, hu, hs'⟩
        refine (List.mem_erase_of_ne ?_).mpr ho'
        rintro rfl
        exact h.lists.gone p i hi hr k hk hu (hs'.symm.trans hs.symm)
  refine ⟨t, b', hrun, ⟨hinv, hbooks.2.1, h.length, hst.quiet h.quiet, ?_⟩,
    ⟨i₀, by rw [hkeep _ (Ne.symm hne), hi₀], hs₀, hopen'⟩, hslots⟩
  refine h.lists.step hslots hbooks.1 hst.root hbooks.2.2 fun q j hj hr k hk hu => ?_
  by_cases hq : q = p
  · subst hq
    obtain ⟨hr', hs⟩ := h.removed_of_close hi hrun hfol hj hr
    rw [← hs]
    exact h.lists.gone q i hi hr' k hk hu
  · rw [hkeep q hq] at hj
    exact h.lists.gone q j hj hr k hk hu

omit hopen in
lemma grants (k : Nat) : s.grants k = true := grants_of_quiet h.quiet k

lemma lookup_eq (name : Name) :
    (∃ k < n, Found (s.slot d k) name ∧ lookup s dir name = .ok (some (s.slot d k, entrySize * k), s)) ∨
      (∀ k < n, ¬ Found (s.slot d k) name) ∧ lookup s dir name = .ok (none, s) := by
  obtain ⟨i, hi, hd, -⟩ := h.data hopen
  obtain ⟨j, hj, hrun⟩ := lookup_spend hd h.length h.placed hi name
  rw [h.spend_eq] at hrun
  by_cases hlt : j < n
  · rw [if_pos ⟨hlt, h.grants j⟩] at hrun
    refine .inl ⟨j, hlt, (hj.meets hlt).resolve_left fun hg => ?_, hrun⟩
    cases (h.grants j).symm.trans hg
  · rw [if_neg fun hc => hlt hc.1] at hrun
    refine .inr ⟨fun k hk hf => hj.before k (Nat.zero_le k) ?_ (.inr hf), hrun⟩
    omega

lemma dirAdd_eq (name : Name) (sector : Nat) : ∃ ok t, dirAdd s dir name sector = .ok (ok, t) ∧
      (ok = true ↔ nameValid name = true ∧ (∀ l < n, ¬ Found (s.slot d l) name) ∧
        ∃ k < n, entryInUse (s.slot d k) = false) ∧ (ok = false → t = s) ∧
      (ok = true → ∃ k e, k < n ∧ entryInUse (s.slot d k) = false ∧ e.length = entrySize ∧
        t = s.withSlot d k (Entry.fill e name sector) []) := by
  obtain ⟨i, hi, hd, hw⟩ := h.data hopen
  obtain ⟨ok, t, hrun, hrefused, hadded⟩ := dirAdd_spend hd h.length h.placed hi name sector
  refine ⟨ok, t, hrun, ?_⟩
  cases ok with
  | true =>
    obtain ⟨k, e, c, hat, he, rfl⟩ := hadded rfl
    obtain ⟨hfree, habsent⟩ := hat.of_quiet h.quiet
    obtain ⟨hv, -, j, -, hkn, -⟩ := hat
    refine ⟨iff_of_true rfl ⟨hv, habsent, k, hkn, hfree⟩, nofun, fun _ => ⟨k, e, hkn, hfree, he, ?_⟩⟩
    rw [h.quiet, List.drop_nil]
  | false =>
    obtain ⟨⟨c, rfl⟩, hnone⟩ := hrefused rfl
    refine ⟨iff_of_false Bool.false_ne_true ?_, fun _ => h.spend_eq c, nofun⟩
    rintro ⟨hv, habsent, hfree⟩
    obtain ⟨k, hk⟩ := AddsAt.exists_of_quiet h.quiet hv hw habsent hfree
    exact hnone k hk

lemma adds (hm : Represents s d n m) (ho : o ∈ b.files) (hod : o ≠ d) (hu : Unnamed s b o.sector)
    (hl : ∀ l < n, entryInUse (s.slot d l) = true → entrySector (s.slot d l) ≠ o.sector)
    (hc : ∀ p j, s.inode p = some j → o.sector ≠ j.sector) (name : Name) :
    ∃ ok t, dirAdd s dir name o.sector = .ok (ok, t) ∧ Directory t b refs d n ∧ OpenDir t d dir ∧
      (ok = true ↔ nameValid name = true ∧ name.val ∉ m ∧ m.keys.card < n) ∧
      Represents t d n (if ok then m.insert name.val o.sector else m) := by
  obtain ⟨ok, t, hrun, hiff, hkept, hadded⟩ := h.dirAdd_eq hopen name o.sector
  have habsent : (∀ l < n, ¬ Found (s.slot d l) name) ↔ name.val ∉ m := by
    rw [hm.mem_iff]
    simp only [not_exists, not_and]
  rw [habsent, ← hm.card_lt_iff] at hiff
  refine ⟨ok, t, hrun, ?_⟩
  cases ok with
  | false =>
    obtain rfl := hkept rfl
    exact ⟨h, hopen, hiff, hm⟩
  | true =>
    obtain ⟨k, e, hk, hfree, he, rfl⟩ := hadded rfl
    obtain ⟨hv, hnot, -⟩ := hiff.mp rfl
    obtain ⟨hdir, hsector⟩ := h.enters hk he hv ho hod hu hl hc
    have hlen := length_fill he (nameValid_iff.mp hv).2 o.sector
    refine ⟨hdir, hopen, hiff, hm.insert hk hfree (habsent.mpr hnot) ?_ hsector
      fun l hlk => slot_withSlot_of_ne s d hlk hlen []⟩
    rw [slot_withSlot_self s d k hlen]
    exact ⟨entryInUse_fill he (nameValid_iff.mp hv).2 _, (entryName_fill e name _).symm⟩

lemma looksUp (hm : Represents s d n m) (name : Name) :
    (m.lookup name.val = none ∧ dirLookup s dir name = .ok (none, s)) ∨
      ∃ p t j, dirLookup s dir name = .ok (some p, t) ∧ t.inode p = some j ∧
        m.lookup name.val = some j.sector ∧ Directory t b (p :: refs) d n ∧ OpenDir t d dir ∧
        p ≠ dir.inode ∧ t.disk = s.disk := by
  rcases h.lookup_eq hopen name with ⟨k, hk, hf, hrun⟩ | ⟨hnone, hrun⟩
  · right
    obtain ⟨o, ho, hod, hos⟩ := h.lists.named k hk hf.1
    obtain ⟨p, t, hino, hdir, hopen', ⟨j, hj, hjs⟩, hdisk⟩ := h.opens hopen ho
    refine ⟨p, t, j, ?_, hj, ?_, hdir, hopen', ?_, hdisk⟩
    · rw [dirLookup, hrun, bind_ok]
      rw [hos] at hino
      exact hino
    · rw [hjs, hos, hm.lookup_found hk hf]
    · rintro rfl
      obtain ⟨i, hi, hs, -⟩ := hopen'
      cases hi.symm.trans hj
      exact hod (eq_of_sector h.inv.sound.exclusive (Books.file_mem ho) h.mem_objs (hjs.symm.trans hs))
  · left
    refine ⟨?_, by rw [dirLookup, hrun]; rfl⟩
    rw [Finmap.lookup_eq_none, hm.mem_iff]
    rintro ⟨k, hk, hf⟩
    exact hnone k hk hf

lemma dirWrite_eq {e : List Byte} (he : e.length = entrySize) {k : Nat} (hk : k < n) :
    dirWrite s dir e (entrySize * k) = .ok (true, s.withSlot d k e []) := by
  obtain ⟨i, hi, hd, hw⟩ := h.data hopen
  have hrun := dirWrite_spend hd h.length h.placed hi hw he hk (c := 0)
  rw [h.spend_eq, h.quiet, h.grants 0] at hrun
  exact hrun

lemma removes (hm : Represents s d n m) (name : Name) :
    ∃ ok t b', dirRemove s dir name = .ok (ok, t) ∧ Directory t b' refs d n ∧ OpenDir t d dir ∧
      (ok = true ↔ name.val ∈ m) ∧ Represents t d n (if ok then m.erase name.val else m) := by
  rcases h.lookup_eq hopen name with ⟨k, hk, hf, hrun⟩ | ⟨hnone, hrun⟩
  swap
  · refine ⟨false, s, b, by rw [dirRemove, hrun]; rfl, h, hopen, iff_of_false Bool.false_ne_true ?_, hm⟩
    rw [hm.mem_iff]
    rintro ⟨k, hk, hf⟩
    exact hnone k hk hf
  obtain ⟨o, ho, hod, hos⟩ := h.lists.named k hk hf.1
  obtain ⟨p, t₁, hino, h₁, hopen₁, ⟨j, hj, hjs⟩, hdisk⟩ := h.opens hopen ho
  have hslot : ∀ l, t₁.slot d l = s.slot d l := fun l => by rw [Fs.slot, Fs.slot, hdisk]
  have hne : p ≠ dir.inode := by
    rintro rfl
    obtain ⟨i, hi, hs, -⟩ := hopen₁
    cases hi.symm.trans hj
    exact hod (eq_of_sector h.inv.sound.exclusive (Books.file_mem ho) h.mem_objs (hjs.symm.trans hs))
  have hw := h₁.dirWrite_eq hopen₁ (length_erase.trans (length_slot t₁ d k)) hk
  obtain ⟨h₂, hun, hfreed, hother⟩ := h₁.leaves hk (hslot k ▸ hf)
  -- the file that lost its entry is the one that was opened
  have hsec : entrySector (t₁.slot d k) = j.sector := by rw [hslot, ← hos, hjs]
  rw [hsec] at hun
  have hunlisted : ∀ l < n, entryInUse ((t₁.withSlot d k (Entry.erase (t₁.slot d k)) []).slot d l) = true →
      entrySector ((t₁.withSlot d k (Entry.erase (t₁.slot d k)) []).slot d l) ≠ j.sector := by
    intro l hl hu hs
    have hlk : l ≠ k := by
      rintro rfl
      cases hfreed.symm.trans hu
    rw [hother l hlk] at hu hs
    exact hlk (h₁.lists.distinct l hl k hk hu (hslot k ▸ hf.1) (hs.trans hsec.symm))
  have hopen₃ : OpenDir ((t₁.withSlot d k (Entry.erase (t₁.slot d k)) []).setInode p
      (some { j with removed := true })) d dir := by
    obtain ⟨i, hi, hrest⟩ := hopen₁
    exact ⟨i, by rw [Fs.setInode_inode_of_ne _ _ _ (Ne.symm hne)]; exact hi, hrest⟩
  obtain ⟨t, b', hclose, h₄, hopen₄, hslots⟩ :=
    (h₂.marks hj ho hjs.symm hun hunlisted).closes hopen₃ List.mem_cons_self hne
  rw [List.erase_cons_head] at h₄
  refine ⟨true, t, b', ?_, h₄, hopen₄, iff_of_true rfl (hm.mem_iff.mpr ⟨k, hk, hf⟩), ?_⟩
  · rw [hos] at hino
    have hj' : (t₁.withSlot d k (Entry.erase (t₁.slot d k)) []).inode p = some j := hj
    rw [hslot] at hw hclose hj'
    rw [dirRemove, hrun, bind_ok]
    simp only [hino, bind_ok, hw, if_true, inodeRemove, inodeAt_eq hj', pure_eq_ok, hclose]
  · refine hm.erase hk hf ?_ fun l hl hlk => ?_
    · rw [hslots k hk]
      exact hfreed
    · rw [hslots l hl]
      exact (hother l hlk).trans (hslot l)

end Directory

def Fs.namesFrom (s : Fs) (d : Obj) (n k : Nat) : List (List Byte) :=
  ((List.range' k (n - k)).filter fun l => entryInUse (s.slot d l)).map fun l => entryName (s.slot d l)

lemma namesFrom_end (s : Fs) (d : Obj) (n : Nat) : s.namesFrom d n n = [] := by
  rw [Fs.namesFrom, Nat.sub_self]
  rfl

lemma namesFrom_step (s : Fs) (d : Obj) {n k : Nat} (hk : k < n) :
    s.namesFrom d n k = if entryInUse (s.slot d k) = true then
      entryName (s.slot d k) :: s.namesFrom d n (k + 1) else s.namesFrom d n (k + 1) := by
  rw [Fs.namesFrom, show n - k = n - (k + 1) + 1 by omega, List.range'_succ, List.filter_cons]
  split <;> rfl

lemma Represents.nodup_names (h : Represents s d n m) : (s.namesFrom d n 0).Nodup := by
  refine List.Nodup.map_on (fun k hk l hl hname => ?_) ((List.nodup_range').filter _)
  simp only [List.mem_filter, List.mem_range'_1, Nat.sub_zero, Nat.zero_add] at hk hl
  exact h.distinct k hk.1.2 l hl.1.2 hk.2 hl.2 hname

lemma Represents.mem_names (h : Represents s d n m) {x : List Byte} : x ∈ s.namesFrom d n 0 ↔ x ∈ m := by
  simp only [Fs.namesFrom, List.mem_map, List.mem_filter, List.mem_range'_1, Nat.sub_zero, Nat.zero_add,
    Nat.zero_le, true_and]
  constructor
  · rintro ⟨k, ⟨hk, hu⟩, rfl⟩
    exact h.mem_of_inUse hk hu
  · intro hx
    obtain ⟨sector, hsector⟩ := Option.isSome_iff_exists.mp (Finmap.lookup_isSome.mpr hx)
    obtain ⟨k, hk, hu, hname, -⟩ := (h.lookup_iff _ _).mp hsector
    exact ⟨k, ⟨hk, hu⟩, hname⟩

def readNames : Nat → Fs → Dir → Except Panic (List (List Byte) × Fs)
  | 0, s, _ => return ([], s)
  | fuel + 1, s, dir => do
    match ← dirReaddir s dir with
    | (none, _, s) => return ([], s)
    | (some name, dir, s) =>
      let (names, s) ← readNames fuel s dir
      return (name :: names, s)

namespace Directory

def ReadsFrom (s : Fs) (d : Obj) (n : Nat) (dir : Dir) (k : Nat) (r : Except Panic (Option (List Byte) × Dir × Fs)) :
    Prop :=
  (s.namesFrom d n k = [] ∧ r = .ok (none, { dir with pos := entrySize * n }, s)) ∨
    ∃ j, k ≤ j ∧ j < n ∧ s.namesFrom d n k = entryName (s.slot d j) :: s.namesFrom d n (j + 1) ∧
      entryInUse (s.slot d j) = true ∧
      r = .ok (some (entryName (s.slot d j)), { dir with pos := entrySize * (j + 1) }, s)

lemma readdirLoop_eq (h : Directory s b refs d n) (hopen : OpenDir s d dir) (fuel k : Nat) (hk : k ≤ n)
    (hf : n < fuel + k) :
    ReadsFrom s d n dir k (readdirLoop fuel { dir with pos := entrySize * k } s) := by
  obtain ⟨i, hi, hd, -⟩ := h.data hopen
  induction fuel generalizing k with
  | zero => omega
  | succ fuel ih =>
    rw [readdirLoop]
    by_cases hkn : k < n
    swap
    · obtain rfl : k = n := by omega
      refine .inl ⟨namesFrom_end s d k, ?_⟩
      rw [readEntry_end hd h.length h.placed hi le_rfl, bind_ok]
      rfl
    have hread := readEntry_spend hd h.length h.placed hi hkn (c := 0)
    rw [h.spend_eq, h.spend_eq, h.grants 0, if_pos rfl] at hread
    have hpos : entrySize * k + entrySize = entrySize * (k + 1) := by rw [Nat.mul_succ]
    rw [hread, bind_ok]
    simp only [length_slot, if_true, hpos]
    cases hu : entryInUse (s.slot d k) with
    | true =>
      refine .inr ⟨k, le_rfl, hkn, by rw [namesFrom_step s d hkn, if_pos hu], hu, ?_⟩
      rw [if_pos rfl, List.take_of_length_le (h.lists.valid k hkn hu)]
      rfl
    | false =>
      have hskip : s.namesFrom d n k = s.namesFrom d n (k + 1) := by
        rw [namesFrom_step s d hkn, if_neg (by rw [hu]; exact Bool.false_ne_true)]
      rw [if_neg Bool.false_ne_true]
      rcases ih (k + 1) (by omega) (by omega) with ⟨hnil, hrun⟩ | ⟨j, hj, hrest⟩
      · exact .inl ⟨hskip.trans hnil, hrun⟩
      · exact .inr ⟨j, by omega, hskip.symm ▸ hrest⟩

lemma reads (h : Directory s b refs d n) (hopen : OpenDir s d dir) {k : Nat} (hk : k ≤ n)
    (hpos : dir.pos = entrySize * k) : ReadsFrom s d n dir k (dirReaddir s dir) := by
  obtain ⟨i, hi, hd, -⟩ := h.data hopen
  have hread := h.readdirLoop_eq hopen (n + 1) k hk (by omega)
  rw [← hpos] at hread
  rw [dirReaddir, entryFuel_eq hd h.length hi]
  exact hread

lemma readNames_eq (h : Directory s b refs d n) (fuel : Nat) {k : Nat} (hk : k ≤ n) (hf : n < fuel + k)
    (hopen : OpenDir s d dir) (hpos : dir.pos = entrySize * k) :
    readNames fuel s dir = .ok (s.namesFrom d n k, s) := by
  induction fuel generalizing k dir with
  | zero => omega
  | succ fuel ih =>
    rw [readNames]
    rcases h.reads hopen hk hpos with ⟨hnil, hrun⟩ | ⟨j, hkj, hj, hcons, -, hrun⟩
    · rw [hrun, bind_ok, hnil]
      rfl
    · have hrest : readNames fuel s { dir with pos := entrySize * (j + 1) } =
          .ok (s.namesFrom d n (j + 1), s) := ih hj (by omega) hopen rfl
      rw [hrun, bind_ok, hcons]
      simp only [hrest, bind_ok]
      rfl

end Directory

end Pintos.Filesys
