import Pintos.Filesys.Scans

/-! The root directory: looking up, adding and removing names. -/

namespace Pintos.Filesys

open Pintos.Foundation Pintos.Kernel

variable {s t : Fs} {b : Books} {refs : List Nat} {dir : Dir} {i : Inode} {e : List Byte} {k : Nat} {o : Obj}
  {name : Name} {ms : List Bool}

lemma root_slots (b : Books) (hk : k < rootEntries) :
    entrySize * k + entrySize ≤ b.root.length := by
  rw [b.root_length, entrySize]
  rw [rootEntries] at hk
  omega

lemma root_entries (b : Books) : b.root.length = entrySize * rootEntries := b.root_length

namespace Inv

lemma root_data (h : Inv s b refs) {p : Nat} (hi : s.inode p = some i) (hs : i.sector = rootDirSector) :
    i.data = b.root.data ∧ i.denyWriteCnt = 0 := by
  obtain ⟨o, ho, hso, hd⟩ := h.table.backed _ _ hi
  have he : o = b.root :=
    eq_of_sector h.sound.exclusive ho b.root_mem (by rw [hso, hs, b.root_sector])
  exact ⟨he ▸ hd.symm, h.table.writable _ _ hi (.inr hs)⟩

lemma withSlot (h : Inv s b refs) (hk : k < rootEntries)
    (he : e.length = entrySize) (hq : s.mallocs = [] → ms = []) (hn : Names (s.withSlot b.root k e ms) b) :
    Inv (s.withSlot b.root k e ms) b refs ∧ Carries s (s.withSlot b.root k e ms) b := by
  have hx := h.sound.exclusive
  have hc : s.disk.Confined 512 (s.withSlot b.root k e ms).disk (· ∈ b.root.extent) :=
    confined_write s.disk (by rw [he]; exact root_slots b hk)
  constructor
  · exact h.step (.with_map s s.freeMap _ ms) rfl hc
      (fun o ho => sector_notMem_extent hx b.root_mem ho) (fun _ _ => id) hn
  · refine ⟨fun o ho => ?_, hq, fun _ ⟨c, hcs, hs⟩ => ⟨c, hcs, Eq.trans ?_ hs⟩⟩
    · apply Fs.content_eq_of_confined hc
      exact fun x hx' => extent_disjoint hx (Books.file_mem ho) b.root_mem (Books.file_ne hx ho).2 hx'
    · apply Fs.content_eq_of_confined hc
      exact fun x hx' => extent_disjoint hx b.fm_mem b.root_mem b.fm_ne_root hx'

section Root

variable (h : Inv s b refs) (hi : s.inode dir.inode = some i) (hs : i.sector = rootDirSector)

include h hi hs

lemma lookup_spec (name : Name) :
    ∃ r ms, lookup s dir name = .ok (r, { s with mallocs := ms }) ∧ (s.mallocs = [] → ms = []) ∧
      (∀ e ofs, r = some (e, ofs) → ∃ j < rootEntries, ofs = entrySize * j ∧ e = s.slot b.root j ∧
        Found e name ∧ ∀ l < j, ¬ Found (s.slot b.root l) name) ∧
      (r = none → s.mallocs = [] → ∀ l < rootEntries, ¬ Found (s.slot b.root l) name) := by
  obtain ⟨j, hj, hrun⟩ := lookup_spend (h.root_data hi hs).1 (root_entries b) (h.sound.placed _ b.root_mem) hi name
  refine ⟨_, _, hrun, fun hm => spend_quiet hm _, fun e ofs hr => ?_, fun hr hm l hl hf => ?_⟩
  · obtain ⟨⟨hlt, hg⟩, hr⟩ := Option.ite_none_right_eq_some.mp hr
    cases hr
    have hfound := (hj.meets hlt).resolve_left fun hg' => Bool.false_ne_true (hg'.symm.trans hg)
    exact ⟨j, hlt, rfl, rfl, hfound, fun l hl hf => hj.before l (Nat.zero_le l) hl (.inr hf)⟩
  · have hge : ¬ j < rootEntries := fun hlt => by
      rw [if_pos ⟨hlt, grants_of_quiet hm j⟩] at hr
      cases hr
    exact hj.before l (Nat.zero_le l) (by omega) (.inr hf)

lemma dirSlot_spec :
    ∃ e j ms, dirSlot s dir = .ok (e, entrySize * j, { s with mallocs := ms }) ∧
      e.length = entrySize ∧ j ≤ rootEntries ∧
      (s.mallocs = [] → j < rootEntries → entryInUse (s.slot b.root j) = false) := by
  obtain ⟨j, e, hj, hrun, he⟩ := dirSlot_spend (h.root_data hi hs).1 (root_entries b)
    (h.sound.placed _ b.root_mem) hi 0
  refine ⟨e, j, _, hrun, he, hj.le, fun hm hlt => (hj.meets hlt).resolve_left fun hg => ?_⟩
  cases (grants_of_quiet hm _).symm.trans hg

lemma dirWrite_spec (he : e.length = entrySize) (hk : k < rootEntries) :
    ∃ ok ms, dirWrite s dir e (entrySize * k) =
        .ok (ok, if ok then s.withSlot b.root k e ms else { s with mallocs := ms }) ∧
      (s.mallocs = [] → ok = true ∧ ms = []) := by
  obtain ⟨hd, hw⟩ := h.root_data hi hs
  have hrun := dirWrite_spend hd (root_entries b) (h.sound.placed _ b.root_mem) hi hw he hk (c := 0)
  exact ⟨s.grants 0, s.mallocs.drop 1, hrun, fun hm => ⟨grants_of_quiet hm 0, spend_quiet hm 1⟩⟩

lemma dirWrite_end (hk : rootEntries ≤ k) : dirWrite s dir e (entrySize * k) = .ok (false, s) :=
  dirWrite_past (h.root_data hi hs).1 (root_entries b) (h.sound.placed _ b.root_mem) hi (c := 0) hk

end Root

end Inv

structure Enters (s t : Fs) (d : Obj) (name : Name) (sector k : Nat) : Prop where
  lt : k < rootEntries
  found : Found (t.slot d k) name
  sector : entrySector (t.slot d k) = sector
  others : ∀ l < rootEntries, l ≠ k → t.slot d l = s.slot d l

section Enters

variable {d : Obj} {sector l : Nat} {name' : Name} (he : Enters s t d name sector k)

include he

lemma Enters.name_eq (hf : Found (t.slot d k) name') : name' = name :=
  Subtype.ext (hf.2.trans he.found.2.symm)

variable (hno : ∀ l < rootEntries, ¬ Found (s.slot d l) name)

include hno

lemma Enters.name_ne (hl : l < rootEntries) (hlk : l ≠ k) (hf : Found (t.slot d l) name') : name' ≠ name := by
  rintro rfl
  rw [he.others l hl hlk] at hf
  exact hno l hl hf

lemma Enters.once (h : ∀ l < rootEntries, ∀ m < rootEntries, ∀ name, Found (s.slot d l) name →
      Found (s.slot d m) name → l = m) :
    ∀ l < rootEntries, ∀ m < rootEntries, ∀ name, Found (t.slot d l) name → Found (t.slot d m) name → l = m := by
  intro l hl m hm name' hfl hfm
  by_cases hlk : l = k <;> by_cases hmk : m = k
  · rw [hlk, hmk]
  · subst hlk
    exact (he.name_ne hno hm hmk hfm (he.name_eq hfl)).elim
  · subst hmk
    exact (he.name_ne hno hl hlk hfl (he.name_eq hfm)).elim
  · rw [he.others l hl hlk] at hfl
    rw [he.others m hm hmk] at hfm
    exact h l hl m hm name' hfl hfm

end Enters

def Unnamed (s : Fs) (b : Books) (sector : Nat) : Prop :=
  ∀ k < rootEntries, entryInUse (s.slot b.root k) = true → entrySector (s.slot b.root k) ≠ sector

lemma Names.replace (h : Names s b) (hi : t.inode = s.inode)
    (hother : ∀ l < rootEntries, l ≠ k → t.slot b.root l = s.slot b.root l)
    (hself : entryInUse (t.slot b.root k) = true →
      (∃ o ∈ b.files, o.sector = entrySector (t.slot b.root k)) ∧ Unnamed s b (entrySector (t.slot b.root k)) ∧
      ∀ p j, s.inode p = some j → entrySector (t.slot b.root k) ≠ j.sector) : Names t b where
  named := slots_forall (P := fun e => ∃ o ∈ b.files, o.sector = entrySector e) hother h.named
    fun hu => (hself hu).1
  distinct := slots_distinct hother entrySector h.distinct fun hu l hl _ => (hself hu).2.1 l hl
  gone p j hj hr := by
    rw [hi] at hj
    exact ⟨(h.gone p j hj hr).1, slots_forall (P := fun e => entrySector e ≠ j.sector) hother
      (h.gone p j hj hr).2 fun hu => (hself hu).2.2 p j hj⟩

lemma Names.enters (h : Names s b) (ho : o ∈ b.files)
    (he : Enters s t b.root name o.sector k) (hi : t.inode = s.inode) (hu : Unnamed s b o.sector)
    (hc : ∀ p j, s.inode p = some j → o.sector ≠ j.sector) : Names t b := by
  refine h.replace hi he.others fun _ => ?_
  rw [he.sector]
  exact ⟨⟨o, ho, rfl⟩, hu, hc⟩

structure Adds (s t : Fs) (b : Books) (name : Name) (sector : Nat) (ok : Bool) : Prop where
  table : SameTable s t
  carries : Carries s t b
  freeMap : t.freeMap = s.freeMap
  refused : ok = false → t.content b.root = s.content b.root
  entered : ok = true → nameValid name = true ∧ ∃ k, Enters s t b.root name sector k ∧
    (s.mallocs = [] → entryInUse (s.slot b.root k) = false ∧
      ∀ l < rootEntries, ¬ Found (s.slot b.root l) name)
  declined : ok = false → s.mallocs = [] → nameValid name = false ∨
    (∃ l < rootEntries, Found (s.slot b.root l) name) ∨
    ∀ l < rootEntries, entryInUse (s.slot b.root l) = true

namespace Inv

lemma filled (h : Inv s b refs) (ho : o ∈ b.files) (hu : Unnamed s b o.sector)
    (hc : ∀ p j, s.inode p = some j → o.sector ≠ j.sector) {name : Name} (hv : nameValid name = true)
    (he : e.length = entrySize) (hk : k < rootEntries)
    (hq : s.mallocs = [] → ms = []) : Inv (s.withSlot b.root k (Entry.fill e name o.sector) ms) b refs ∧
      Carries s (s.withSlot b.root k (Entry.fill e name o.sector) ms) b ∧
      Enters s (s.withSlot b.root k (Entry.fill e name o.sector) ms) b.root name o.sector k := by
  have hname := (nameValid_iff.mp hv).2
  have hlen := length_fill he hname o.sector
  have hlt : o.sector < 4294967296 := by
    have := (h.sound.used _ (sector_mem_owned (Books.file_mem ho))).1
    have := s.sectors_lt
    omega
  have hent : Enters s (s.withSlot b.root k (Entry.fill e name o.sector) ms) b.root name o.sector k := by
    refine ⟨hk, ?_, ?_, fun l _ hl => slot_withSlot_of_ne s b.root hl hlen ms⟩
    · rw [slot_withSlot_self s b.root k hlen]
      exact ⟨entryInUse_fill he hname _, (entryName_fill e name _).symm⟩
    · rw [slot_withSlot_self s b.root k hlen, entrySector_fill e name hlt]
  obtain ⟨hinv, hcar⟩ := h.withSlot hk hlen hq (h.names.enters ho hent rfl hu hc)
  exact ⟨hinv, hcar, hent⟩

lemma adds (h : Inv s b refs) (hi : s.inode dir.inode = some i) (hs : i.sector = rootDirSector)
    (ho : o ∈ b.files) (hu : Unnamed s b o.sector)
    (hc : ∀ p j, s.inode p = some j → o.sector ≠ j.sector) (name : Name) :
    ∃ ok t, dirAdd s dir name o.sector = .ok (ok, t) ∧ Inv t b refs ∧ Adds s t b name o.sector ok := by
  obtain ⟨hd, hw⟩ := h.root_data hi hs
  obtain ⟨ok, t, hrun, hrefused, hadded⟩ :=
    dirAdd_spend hd (root_entries b) (h.sound.placed _ b.root_mem) hi name o.sector
  refine ⟨ok, t, hrun, ?_⟩
  cases ok with
  | false =>
    obtain ⟨⟨c, rfl⟩, hnone⟩ := hrefused rfl
    refine ⟨h.with_mallocs _, .with_map s s.freeMap s.disk _,
      (Steady.with_mallocs s b fun hm => spend_quiet hm c).toCarries, rfl, fun _ => rfl, nofun, fun _ hm => ?_⟩
    by_contra hbad
    simp only [not_or, not_exists, not_and, not_forall, Bool.not_eq_true, Bool.not_eq_false] at hbad
    obtain ⟨hv, habsent, l, hl, hfree⟩ := hbad
    obtain ⟨k, hk⟩ := AddsAt.exists_of_quiet hm hv hw habsent ⟨l, hl, hfree⟩
    exact hnone k hk
  | true =>
    obtain ⟨k, e, c, hat, he, rfl⟩ := hadded rfl
    obtain ⟨hinv, hcar, hent⟩ := h.filled ho hu hc hat.1 he hat.lt fun hm => spend_quiet hm c
    exact ⟨hinv, .with_map s s.freeMap _ _, hcar, rfl, nofun,
      fun _ => ⟨hat.1, k, hent, fun hm => hat.of_quiet hm⟩, nofun⟩

end Inv

structure Leaves (s t : Fs) (d : Obj) (name : Name) (k : Nat) : Prop where
  lt : k < rootEntries
  found : Found (s.slot d k) name
  freed : entryInUse (t.slot d k) = false
  others : ∀ l < rootEntries, l ≠ k → t.slot d l = s.slot d l

lemma Names.leaves (h : Names s b) (hk : Leaves s t b.root name k) (hi : t.inode = s.inode) : Names t b := by
  refine h.replace hi hk.others fun hu => ?_
  cases hk.freed.symm.trans hu

lemma Names.unnamed_of_leaves (h : Names s b) (hk : Leaves s t b.root name k) :
    Unnamed t b (entrySector (s.slot b.root k)) := by
  intro l hl hul he
  have hlk : l ≠ k := by
    rintro rfl
    simp [hk.freed] at hul
  rw [hk.others l hl hlk] at hul he
  exact hlk (h.distinct l hl k hk.lt hul hk.found.1 he)

namespace Inv

lemma mark (h : Inv s b refs) {p : Nat} (hi : s.inode p = some i) (ho : o ∈ b.files)
    (hs : o.sector = i.sector) (hu : Unnamed s b i.sector) :
    Inv (s.setInode p (some { i with removed := true })) b refs where
  bitCnt := h.bitCnt
  fmLength := h.fmLength
  fmOpen := h.fmOpen
  fmHandle := h.fmHandle
  fmBacked := by
    obtain ⟨j, hj, hz⟩ := h.fmBacked
    by_cases hp : b.fmInode = p
    · subst hp
      cases hi.symm.trans hj
      exact ⟨_, Fs.setInode_inode_self _ _ _, hz⟩
    · exact ⟨j, by rw [Fs.setInode_inode_of_ne _ _ _ hp, hj], hz⟩
  sound := h.sound.congr rfl rfl rfl
  table := h.table.mark_removed hi
  names :=
    { named := h.names.named
      distinct := h.names.distinct
      gone := fun q j hj hr => by
        rcases Fs.setInode_eq_some hj with ⟨rfl, ⟨⟩⟩ | ⟨-, hj⟩
        · exact ⟨⟨o, ho, hs⟩, hu⟩
        · exact h.names.gone q j hj hr }

end Inv

structure Removes (s t : Fs) (b b' : Books) (name : Name) (ok : Bool) : Prop where
  file : t.file = s.file
  follows : Follows s t
  carries : Carries s t b
  refused : ok = false → t.content b.root = s.content b.root ∧ b' = b
  left : ok = true → ∃ k, Leaves s t b.root name k ∧ (b' = b ∨
    ∃ o ∈ b.files, b' = b.erase o ∧ o.sector = entrySector (s.slot b.root k) ∧
      ∀ p j, s.inode p = some j → j.sector ≠ o.sector)
  declined : ok = false → s.mallocs = [] → ∀ l < rootEntries, ¬ Found (s.slot b.root l) name

namespace Inv

lemma removes_unchanged (name : Name) (hd : SameDisk s t) (hf : t.file = s.file)
    (hfol : Follows s t) (hn : s.mallocs = [] → ∀ l < rootEntries, ¬ Found (s.slot b.root l) name) :
    Removes s t b b name false :=
  ⟨hf, hfol, (hd.steady b).toCarries, fun _ => ⟨hd.content b.root, rfl⟩, nofun, fun _ => hn⟩

lemma erases {p : Nat} {j : Inode} (h : Inv s b (p :: refs)) (hj : s.inode p = some j)
    (ho : o ∈ b.files) (hjs : j.sector = o.sector) (hk : k < rootEntries)
    (hos : o.sector = entrySector (s.slot b.root k)) {name : Name} (hfound : Found (s.slot b.root k) name)
    (hq : s.mallocs = [] → ms = []) :
    ∃ u v b', inodeRemove (s.withSlot b.root k (Entry.erase (s.slot b.root k)) ms) p = .ok u ∧
      inodeClose u (some p) = .ok v ∧ Inv v b' refs ∧ Carries s v b ∧ v.file = s.file ∧
      Follows s v ∧ Leaves s v b.root name k ∧ (∀ q, q ≠ p → v.inode q = s.inode q) ∧
      (b' = b ∨ ∃ o ∈ b.files, b' = b.erase o ∧ j.sector = o.sector ∧ j.openCnt - 1 = 0) := by
  have hlen : (Entry.erase (s.slot b.root k)).length = entrySize :=
    length_erase.trans (length_slot s b.root k)
  have hleaves : Leaves s (s.withSlot b.root k (Entry.erase (s.slot b.root k)) ms) b.root name k := by
    refine ⟨hk, hfound, ?_, fun l _ hl => slot_withSlot_of_ne s b.root hl hlen ms⟩
    rw [slot_withSlot_self s b.root k hlen]
    exact entryInUse_erase (length_slot s b.root k)
  obtain ⟨h₁, hcar⟩ := h.withSlot hk hlen hq (h.names.leaves hleaves rfl)
  have hun := h.names.unnamed_of_leaves hleaves
  rw [← hos, ← hjs] at hun
  have h₂ := h₁.mark hj ho hjs.symm hun
  obtain ⟨v, b', hclose, hinv, hst, hf, hfol, hkeep, hset⟩ := h₂.closes List.mem_cons_self
  rw [List.erase_cons_head] at hinv
  refine ⟨_, v, b', ?_, hclose, hinv, ?_, hf, ?_, ?_, fun q hq => ?_, ?_⟩
  · have hj' : (s.withSlot b.root k (Entry.erase (s.slot b.root k)) ms).inode p = some j := hj
    rw [inodeRemove, inodeAt_eq hj']
    rfl
  · exact (hcar.trans ((SameDisk.setInode _ p _).steady b).toCarries).trans hst.toCarries
  · apply Follows.trans (t := s.withSlot b.root k (Entry.erase (s.slot b.root k)) ms)
    · exact .of_sameTable (.with_map s s.freeMap _ ms)
    · refine Follows.trans ?_ hfol
      exact Follows.setInode (s := s.withSlot b.root k _ ms) hj rfl rfl
  · refine ⟨hk, hfound, ?_, fun l hl hlk => ?_⟩
    · rw [slot_congr hst.root hk]
      exact hleaves.freed
    · rw [slot_congr hst.root hl]
      exact hleaves.others l hl hlk
  · rw [hkeep q hq]
    exact Fs.setInode_inode_of_ne _ _ _ hq
  · rcases hset with hb | ⟨o', ho', hb, i', hi', hsec, _, hc⟩
    · exact .inl hb
    · rw [Fs.setInode_inode_self] at hi'
      cases hi'
      exact .inr ⟨o', ho', hb, hsec, hc⟩

lemma removes (h : Inv s b refs) (hi : s.inode dir.inode = some i) (hs : i.sector = rootDirSector)
    (name : Name) :
    ∃ ok t b', dirRemove s dir name = .ok (ok, t) ∧ Inv t b' refs ∧ Removes s t b b' name ok ∧
      ∃ i', t.inode dir.inode = some i' ∧ i'.sector = rootDirSector := by
  obtain ⟨r, ms, hrun, hq, hsome, hnone⟩ := h.lookup_spec hi hs name
  rw [dirRemove, hrun, bind_ok]
  have hd₁ : SameDisk s { s with mallocs := ms } := ⟨rfl, rfl, rfl, rfl, hq⟩
  have hfol₁ : Follows s { s with mallocs := ms } := .of_sameTable (.with_map s s.freeMap s.disk ms)
  have h₁ := h.with_mallocs ms
  rcases r with _ | ⟨e, ofs⟩
  · exact ⟨false, _, b, rfl, h₁, removes_unchanged name hd₁ rfl hfol₁ (hnone rfl), i, hi, hs⟩
  obtain ⟨k, hk, rfl, rfl, hfound, _⟩ := hsome e ofs rfl
  obtain ⟨o, ho, hos⟩ := h.names.named k hk hfound.1
  obtain ⟨r, t, hopen, hd₂, hf₂, hlast, hfol₂, hnone₂, hsome₂⟩ := h₁.opens (Books.file_mem ho)
  rw [hos] at hopen
  simp only [hopen, bind_ok]
  obtain ⟨i₂, hi₂, hs₂, _⟩ := hlast _ i hi
  rw [hs] at hs₂
  cases r with
  | none =>
    obtain ⟨hm, h₂⟩ := hnone₂ rfl
    refine ⟨false, t, b, rfl, h₂, removes_unchanged name (hd₁.trans hd₂) hf₂ (hfol₁.trans hfol₂) ?_,
      i₂, hi₂, hs₂⟩
    exact fun he => (hm (hq he)).elim
  | some p =>
    obtain ⟨h₂, j, hj, hjs⟩ := hsome₂ p rfl
    have hne : dir.inode ≠ p := by
      intro he
      rw [he] at hi₂
      cases hi₂.symm.trans hj
      exact (Books.sector_ne h.sound.exclusive ho).2 (hjs.symm.trans hs₂)
    have hslot : ∀ l, t.slot b.root l = s.slot b.root l := fun l => by rw [Fs.slot, Fs.slot, hd₂.disk]
    obtain ⟨ok, ms', hw, hqw⟩ := h₂.dirWrite_spec hi₂ hs₂ (e := Entry.erase (s.slot b.root k))
      (length_erase.trans (length_slot s b.root k)) hk
    simp only [hw, bind_ok]
    have hq₂ : s.mallocs = [] → t.mallocs = [] := fun hm => hd₂.quiet (hq hm)
    cases ok with
    | false =>
      have hjr : j.removed = false := by
        cases hr : j.removed with
        | false => rfl
        | true =>
          have hgone := (h₂.names.gone p j hj hr).2 k hk
          rw [hslot] at hgone
          exact (hgone hfound.1 (hos.symm.trans hjs.symm)).elim
      obtain ⟨u, hclose, hinv, hd₃, hf₃, hfol₃, hkeep⟩ :=
        (h₂.with_mallocs ms').closes_kept hj List.mem_cons_self hjr
      rw [List.erase_cons_head] at hinv
      refine ⟨false, u, b, ?_, hinv, removes_unchanged name ?_ (hf₃.trans hf₂) ?_ ?_, i₂, ?_, hs₂⟩
      · simp only [Bool.false_eq_true, if_false, pure_eq_ok, bind_ok, hclose]
      · exact (hd₁.trans hd₂).trans
          (SameDisk.trans (t := { t with mallocs := ms' }) ⟨rfl, rfl, rfl, rfl, fun hm => (hqw hm).2⟩ hd₃)
      · exact (hfol₁.trans hfol₂).trans
          ((Follows.of_sameTable (.with_map t t.freeMap t.disk ms')).trans hfol₃)
      · exact fun hm => by cases (hqw (hq₂ hm)).1
      · rw [hkeep _ hne]
        exact hi₂
    | true =>
      rw [← hslot] at hfound hos
      obtain ⟨u, v, b', hrem, hclose, hinv, hcar, hf₃, hfol₃, hleaves, hkeep, hset⟩ :=
        h₂.erases hj ho hjs hk hos hfound fun hm => (hqw hm).2
      rw [hslot] at hrem
      refine ⟨true, v, b', ?_, hinv, ⟨hf₃.trans hf₂, (hfol₁.trans hfol₂).trans hfol₃, ?_, by simp,
        fun _ => ⟨k, ?_, ?_⟩, by simp⟩, i₂, ?_, hs₂⟩
      · simp only [if_true, hrem, bind_ok, hclose]
        rfl
      · exact ((hd₁.trans hd₂).steady b).toCarries.trans hcar
      · refine ⟨hk, hslot k ▸ hleaves.found, hleaves.freed, fun l hl hlk => ?_⟩
        rw [hleaves.others l hl hlk, hslot]
      · rcases hset with hb | ⟨o', ho', hb, hsec, hc⟩
        · exact .inl hb
        · refine .inr ⟨o', ho', hb, ?_, ?_⟩
          · rw [← hsec, hjs, hos, hslot]
          · intro q l hl he
            obtain ⟨l', hl', hs', _⟩ := hlast q l hl
            have hqp : q = p := h₂.table.inj q p l' j hl' hj (by rw [hs', he, hsec])
            have hmem := h.table.mem_refs hl
            have hcount := (h₂.table.counted p j hj).1
            rw [hqp] at hmem
            have hpos := List.count_pos_iff.mpr hmem
            rw [(List.Perm.swap p b.fmInode refs).count_eq, List.count_cons_self] at hcount
            omega
      · rw [hkeep _ hne]
        exact hi₂

end Inv

end Pintos.Filesys
