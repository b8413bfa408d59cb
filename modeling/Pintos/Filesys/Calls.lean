import Pintos.Filesys.RootDirectory

/-! The entry points `filesys_create`, `filesys_open` and `filesys_remove`. -/

namespace Pintos.Filesys

open Pintos.Foundation Pintos.Kernel

variable {s t : Fs} {b : Books} {refs : List Nat} {dir : Dir} {o : Obj} {x : Nat}

def OnRoot (s : Fs) (dir : Dir) : Prop := ∃ i, s.inode dir.inode = some i ∧ i.sector = rootDirSector

lemma OnRoot.congr (h : OnRoot s dir) (ht : t.inode = s.inode) : OnRoot t dir := by
  rw [OnRoot, ht]
  exact h

namespace Inv

lemma opensRoot (h : Inv s b refs) :
    ∃ r t, dirOpenRoot s = .ok (r, t) ∧ SameDisk s t ∧ t.file = s.file ∧ Follows s t ∧
      (r = none → s.mallocs ≠ [] ∧ Inv t b refs) ∧
      ∀ dir, r = some dir → Inv t b (dir.inode :: refs) ∧ OnRoot t dir ∧ Lasting s t := by
  obtain ⟨r, t, hopen, hd, hf, hlast, hfol, hnone, hsome⟩ := h.opens b.root_mem
  rw [b.root_sector] at hopen
  rw [dirOpenRoot, hopen, bind_ok]
  rcases hm : malloc t.mallocs with ⟨ok, ms⟩
  have hdm : SameDisk t { t with mallocs := ms } := ⟨rfl, rfl, rfl, rfl, fun he => (malloc_quiet hm he).2⟩
  have hfol' := hfol.trans (.of_sameTable (.with_map t t.freeMap t.disk ms))
  cases r with
  | none =>
    obtain ⟨hne, hinv⟩ := hnone rfl
    refine ⟨none, _, ?_, hd.trans hdm, hf, hfol', fun _ => ⟨hne, hinv.with_mallocs ms⟩, by simp⟩
    simp only [dirOpen, hm]
    rfl
  | some p =>
    obtain ⟨hinv, i, hi, hs⟩ := hsome p rfl
    rw [b.root_sector] at hs
    cases ok with
    | true =>
      refine ⟨some ⟨p, 0⟩, _, ?_, hd.trans hdm, hf, hfol', by simp, ?_⟩
      · simp only [dirOpen, hm]
        rfl
      · rintro dir ⟨⟩
        exact ⟨hinv.with_mallocs ms, ⟨i, hi, hs⟩, hlast⟩
    | false =>
      obtain ⟨u, hclose, hinv', hd', hf', hfol'', _⟩ := (hinv.with_mallocs ms).closes_kept hi
        List.mem_cons_self (hinv.kept_of_sector hi (.inr hs))
      rw [List.erase_cons_head] at hinv'
      refine ⟨none, u, ?_, (hd.trans hdm).trans hd', hf'.trans hf, hfol'.trans hfol'',
        fun _ => ⟨fun he => ?_, hinv'⟩, by simp⟩
      · simp only [dirOpen, hm, hclose, bind_ok]
        rfl
      · cases (malloc_quiet hm (hd.quiet he)).1

lemma closesRoot (h : Inv s b (dir.inode :: refs)) (hr : OnRoot s dir) :
    ∃ t, dirClose s (some dir) = .ok t ∧ SameDisk s t ∧ t.file = s.file ∧ Follows s t ∧ Inv t b refs ∧
      ∀ q, q ≠ dir.inode → t.inode q = s.inode q := by
  obtain ⟨i, hi, hs⟩ := hr
  obtain ⟨t, hclose, hinv, hd, hf, hfol, hq⟩ := h.closes_kept hi List.mem_cons_self
    (h.kept_of_sector hi (.inr hs))
  rw [List.erase_cons_head] at hinv
  exact ⟨t, hclose, hd, hf, hfol, hinv, hq⟩

lemma ne_zero_of_notMem (hx : x ∉ owned b.objs) : x ≠ 0 := by
  rintro rfl
  have hm := sector_mem_owned b.fm_mem
  rw [b.fm_sector] at hm
  exact hx hm

end Inv

structure Creates (s t : Fs) (b b' : Books) (name : Name) (length : Int) (ok : Bool) : Prop where
  file : t.file = s.file
  follows : Follows s t
  carries : Carries s t b
  refused : ok = false → b' = b ∧ t.content b.root = s.content b.root
  made : ok = true → nameValid name = true ∧ ∃ o k, b' = b.add o ∧ o.length = length ∧
    o.sector ∉ owned b.objs ∧ t.content o = List.replicate o.length 0 ∧
    Enters s t b.root name o.sector k ∧ (s.mallocs = [] → entryInUse (s.slot b.root k) = false ∧
      ∀ l < rootEntries, ¬ Found (s.slot b.root l) name)

lemma Unnamed.congr (h : Unnamed s b x) (hr : t.content b.root = s.content b.root) : Unnamed t b x := by
  intro k hk
  rw [slot_congr hr hk]
  exact h k hk

namespace Inv

variable (h : Inv s b refs)

include h

lemma unnamed_of_notMem (hx : x ∉ owned b.objs) : Unnamed s b x := by
  intro k hk hu he
  obtain ⟨o, ho, hs⟩ := h.names.named k hk hu
  exact hx (he ▸ hs ▸ sector_mem_owned (Books.file_mem ho))

lemma closed_of_notMem (hx : x ∉ owned b.objs) : ∀ p j, s.inode p = some j → x ≠ j.sector := by
  rintro p j hj rfl
  obtain ⟨o, ho, hs, _⟩ := h.table.backed p j hj
  exact hx (hs ▸ sector_mem_owned ho)

omit h in
lemma creates_refused (h : Inv s b (dir.inode :: refs)) (hr : OnRoot s dir) {u : Fs} (name : Name)
    (length : Int) (hst : Steady u s b) (hf : s.file = u.file) (hfol : Follows u s) :
    ∃ t, dirClose s (some dir) = .ok t ∧ Inv t b refs ∧ Creates u t b b name length false := by
  obtain ⟨t, hclose, hd, hf', hfol', hinv, _⟩ := h.closesRoot hr
  have hst' := hst.trans (hd.steady b)
  exact ⟨t, hclose, hinv, hf'.trans hf, hfol.trans hfol', hst'.toCarries, fun _ => ⟨rfl, hst'.root⟩, nofun⟩

omit h in
lemma creates_named (h : Inv t (b.add o) (dir.inode :: refs)) (hr : OnRoot t dir)
    (hnew : o.sector ∉ owned b.objs) (hu : Unnamed t b o.sector)
    (hc : ∀ p j, t.inode p = some j → o.sector ≠ j.sector)
    (hz : t.content o = List.replicate o.length 0) (hst : Steady s t b) (hf : t.file = s.file)
    (hfol : Follows s t) (name : Name) :
    ∃ ok u v w b', dirAdd t dir name o.sector = .ok (ok, u) ∧
      (if !ok ∧ o.sector ≠ 0 then freeMapRelease u o.sector 1 else pure u) = .ok v ∧
      dirClose v (some dir) = .ok w ∧ Inv w b' refs ∧ Creates s w b b' name o.length ok := by
  obtain ⟨i, hi, hs⟩ := hr
  obtain ⟨ok, u, hadd, h₁, ha⟩ := h.adds hi hs List.mem_cons_self hu hc name
  have hr₁ : OnRoot u dir := OnRoot.congr ⟨i, hi, hs⟩ ha.table.inode
  have hf₁ : u.file = s.file := ha.table.file.trans hf
  have hfol₁ : Follows s u := hfol.trans (.of_sameTable ha.table)
  have hcar : Carries s u b :=
    hst.toCarries.trans (ha.carries.mono rfl fun _ hm => List.mem_cons_of_mem _ hm)
  cases ok with
  | false =>
    have hroot : u.content b.root = t.content b.root := ha.refused rfl
    have hst₁ : Steady s u b := ⟨hcar, hroot.trans hst.root⟩
    have hdrop := h₁.drop List.mem_cons_self (fun p j hj => hc p j (ha.table.inode ▸ hj)) (hu.congr hroot)
    have hres := h₁.reserved_of_drop List.mem_cons_self
    rw [Books.erase_add] at hdrop hres
    obtain ⟨v, hrel, h₂, hst₂, htab₂, _⟩ := hdrop.release hres
    obtain ⟨w, hclose, hinv, hcr⟩ := h₂.creates_refused (hr₁.congr htab₂.inode) name o.length
      (hst₁.trans hst₂) (htab₂.file.trans hf₁) (hfol₁.trans (.of_sameTable htab₂))
    exact ⟨false, u, v, w, b, hadd, by simp [ne_zero_of_notMem hnew, hrel], hclose, hinv, hcr⟩
  | true =>
    obtain ⟨hv, k, hent, hq⟩ := ha.entered rfl
    obtain ⟨w, hclose, hd, hf₂, hfol₂, hinv, _⟩ := h₁.closesRoot hr₁
    have hslot : ∀ l, w.slot b.root l = u.slot b.root l := fun l => by rw [Fs.slot, Fs.slot, hd.disk]
    refine ⟨true, u, u, w, b.add o, hadd, rfl, hclose, hinv, hf₂.trans hf₁,
      hfol₁.trans hfol₂, hcar.trans (hd.steady b).toCarries, by simp,
      fun _ => ⟨hv, o, k, rfl, rfl, hnew, ?_, ?_, fun hm => ?_⟩⟩
    · rw [hd.content, ha.carries.files o List.mem_cons_self, hz]
    · refine ⟨hent.lt, hslot k ▸ hent.found, hslot k ▸ hent.sector, fun l hl hlk => ?_⟩
      rw [hslot]
      exact (hent.others l hl hlk).trans (slot_congr hst.root hl)
    · obtain ⟨hfree, hno⟩ := hq (hst.quiet hm)
      refine ⟨slot_congr hst.root hent.lt ▸ hfree, fun l hl => ?_⟩
      rw [← slot_congr hst.root hl]
      exact hno l hl

lemma creates (name : Name) {length : Int} (hl : length < 2147483648) :
    (∃ ok t b', filesysCreate s name length = .ok (ok, t) ∧ Inv t b' refs ∧ Creates s t b b' name length ok) ∨
      length < 0 ∧ filesysCreate s name length = .error (.assertion .inodeCreateLength) := by
  obtain ⟨r, t₁, hopen, hd₁, hf₁, hfol₁, hnone, hsome⟩ := h.opensRoot
  rw [filesysCreate, hopen, bind_ok]
  cases r with
  | none =>
    have hst := hd₁.steady b
    exact .inl ⟨false, t₁, b, rfl, (hnone rfl).2, hf₁, hfol₁, hst.toCarries, fun _ => ⟨rfl, hst.root⟩, nofun⟩
  | some dir =>
    obtain ⟨h₁, hr₁, _⟩ := hsome dir rfl
    obtain ⟨r, t₂, halloc, h₂, hst₂, htab₂, _, _, hres⟩ := h₁.allocate 1
    have hr₂ := hr₁.congr htab₂.inode
    simp only [halloc, bind_ok]
    have hst₂' := (hd₁.steady b).trans hst₂
    have hfol₂ := hfol₁.trans (.of_sameTable htab₂)
    cases r with
    | none =>
      obtain ⟨t, hclose, hinv, hc⟩ := h₂.creates_refused hr₂ name length hst₂' (htab₂.file.trans hf₁) hfol₂
      exact .inl ⟨false, t, b, bind_of_ok hclose _, hinv, hc⟩
    | some x =>
      rcases Int.lt_or_le length 0 with hneg | hpos
      · refine .inr ⟨hneg, ?_⟩
        simp only [inodeCreate_negative t₂ x hneg]
        rfl
      obtain ⟨n, rfl⟩ := Int.eq_ofNat_of_zero_le hpos
      have hx := hres x rfl
      left
      obtain ⟨ok, t₃, hcreate, htab₃, hst₃, _, hbad, hgood⟩ := h₂.create hx (Int.ofNat_lt.mp hl)
      have hr₃ := hr₂.congr htab₃.inode
      have hst₃' := hst₂'.trans hst₃
      have hfol₃ := hfol₂.trans (.of_sameTable htab₃)
      have hf₃ : t₃.file = s.file := htab₃.file.trans (htab₂.file.trans hf₁)
      simp only [hcreate, bind_ok]
      have hx0 : x ≠ 0 := ne_zero_of_notMem (hx.2 x le_rfl (by omega)).1
      cases ok with
      | false =>
        obtain ⟨h₃, hx₃⟩ := hbad rfl
        obtain ⟨t₄, hrel, h₄, hst₄, htab₄, _⟩ := h₃.release hx₃
        obtain ⟨t, hclose, hinv, hc⟩ := h₄.creates_refused (hr₃.congr htab₄.inode) name n
          (hst₃'.trans hst₄) (htab₄.file.trans hf₃) (hfol₃.trans (.of_sameTable htab₄))
        refine ⟨false, t, b, ?_, hinv, hc⟩
        simp [pure_eq_ok, hx0, hrel, hclose]
      | true =>
        obtain ⟨o, rfl, rfl, hnew, h₃, hz, _⟩ := hgood rfl
        obtain ⟨ok, u, v, w, b', hadd, hrel, hclose, hinv, hcr⟩ := h₃.creates_named hr₃ hnew
          ((h₂.unnamed_of_notMem hnew).congr hst₃.root)
          (fun p j hj => h₂.closed_of_notMem hnew p j (htab₃.inode ▸ hj)) hz hst₃' hf₃ hfol₃ name
        refine ⟨ok, w, b', ?_, hinv, hcr⟩
        simp only [if_true, hadd, bind_ok]
        split
        · next hcond =>
          rw [if_pos hcond] at hrel
          rw [hrel, bind_ok, hclose]
          rfl
        · next hcond =>
          rw [if_neg hcond] at hrel
          rw [hrel, bind_ok, hclose]
          rfl

lemma unlinks (name : Name) :
    ∃ ok t b', filesysRemove s name = .ok (ok, t) ∧ Inv t b' refs ∧ Removes s t b b' name ok := by
  obtain ⟨r, t₁, hopen, hd₁, hf₁, hfol₁, hnone, hsome⟩ := h.opensRoot
  rw [filesysRemove, hopen, bind_ok]
  cases r with
  | none =>
    obtain ⟨hne, hinv⟩ := hnone rfl
    exact ⟨false, t₁, b, rfl, hinv, removes_unchanged name hd₁ hf₁ hfol₁ fun hm => (hne hm).elim⟩
  | some dir =>
    obtain ⟨h₁, ⟨i, hi, hs⟩, hlast⟩ := hsome dir rfl
    obtain ⟨ok, t₂, b', hrem, h₂, hr, hroot⟩ := h₁.removes hi hs name
    obtain ⟨t₃, hclose, hd₃, hf₃, hfol₃, h₃, _⟩ := h₂.closesRoot hroot
    have hin : ∀ l, t₁.slot b.root l = s.slot b.root l := fun l => by rw [Fs.slot, Fs.slot, hd₁.disk]
    have hout : ∀ l, t₃.slot b.root l = t₂.slot b.root l := fun l => by rw [Fs.slot, Fs.slot, hd₃.disk]
    refine ⟨ok, t₃, b', ?_, h₃, hf₃.trans (hr.file.trans hf₁), (hfol₁.trans hr.follows).trans hfol₃,
      ((hd₁.steady b).toCarries.trans hr.carries).trans (hd₃.steady b).toCarries, fun hok => ?_,
      fun hok => ?_, fun hok hm => ?_⟩
    · simp only [hrem, bind_ok, hclose]
      rfl
    · obtain ⟨hc, hb⟩ := hr.refused hok
      exact ⟨(hd₃.content _).trans (hc.trans (hd₁.content _)), hb⟩
    · obtain ⟨k, hk, hb⟩ := hr.left hok
      refine ⟨k, ⟨hk.lt, hin k ▸ hk.found, hout k ▸ hk.freed, fun l hl hlk => ?_⟩, ?_⟩
      · rw [hout, hk.others l hl hlk, hin]
      · rcases hb with hb | ⟨o, ho, hb, hso, hclosed⟩
        · exact .inl hb
        · refine .inr ⟨o, ho, hb, hin k ▸ hso, fun p j hj => ?_⟩
          obtain ⟨j', hj', hs', _⟩ := hlast p j hj
          exact hs' ▸ hclosed p j' hj'
    · intro l hl
      rw [← hin]
      exact hr.declined hok (hd₁.quiet hm) l hl

lemma refile {g : Nat → Option File} {n : Nat} {ms : List Bool} (hn : s.next ≤ n)
    (hg : ∀ f, n ≤ f → g f = none) (hfm : ∃ x, g b.fmFile = some x ∧ x.inode = b.fmInode) :
    Inv { s with file := g, next := n, mallocs := ms } b refs :=
  { h with
    fmHandle := hfm
    sound := h.sound.congr rfl rfl rfl
    table :=
      { h.table with fresh := fun p hp => ⟨(h.table.fresh p (hn.trans hp)).1, hg p hp⟩ }
    names := h.names.congr rfl fun _ i hi hr => ⟨i, hi, hr, rfl⟩ }

end Inv

structure Handle (s t : Fs) (f p : Nat) : Prop where
  fresh : s.next ≤ f
  file : t.file f = some { inode := p, pos := 0, denyWrite := false }
  others : ∀ g, g ≠ f → t.file g = s.file g

namespace Inv

variable {p : Nat} {i : Inode}

lemma opensFile (h : Inv s b (p :: refs)) (hi : s.inode p = some i)
    (hk : i.removed = true → i.openCnt - 1 ≠ 0) :
    ∃ r t, fileOpen s (some p) = .ok (r, t) ∧ SameDisk s t ∧ Follows s t ∧
      (r = none → s.mallocs ≠ [] ∧ t.file = s.file ∧ Inv t b refs) ∧
      ∀ f, r = some f → Inv t b (p :: refs) ∧ Handle s t f p ∧ t.inode = s.inode := by
  rcases hm : malloc s.mallocs with ⟨ok, ms⟩
  have hd : SameDisk s { s with mallocs := ms } := ⟨rfl, rfl, rfl, rfl, fun he => (malloc_quiet hm he).2⟩
  cases ok with
  | true =>
    have hrun : fileOpen s (some p) = .ok (some s.next, Fs.setFile
        { s with next := s.next + 1, mallocs := ms } s.next
        (some { inode := p, pos := 0, denyWrite := false })) := by
      simp only [fileOpen, hm]
      rfl
    refine ⟨some s.next, _, hrun, ⟨rfl, rfl, rfl, rfl, fun he => (malloc_quiet hm he).2⟩,
      ⟨Nat.le_succ _, fun q k hk => .inl ⟨k, hk, rfl, rfl⟩⟩, by simp, ?_⟩
    rintro f ⟨⟩
    refine ⟨h.refile (Nat.le_succ _) (fun f hf => ?_) ?_,
      ⟨le_rfl, if_pos rfl, fun g hg => if_neg hg⟩, rfl⟩
    · have hf : s.next + 1 ≤ f := hf
      rw [if_neg (Nat.ne_of_gt hf)]
      exact (h.table.fresh f (by omega)).2
    · rw [if_neg (Nat.ne_of_lt h.file_lt_next)]
      exact h.fmHandle
  | false =>
    obtain ⟨u, hclose, hinv, hd', hf', hfol, _⟩ :=
      (h.with_mallocs ms).closes_unless hi List.mem_cons_self hk
    rw [List.erase_cons_head] at hinv
    refine ⟨none, u, ?_, hd.trans hd', ?_, fun _ => ⟨fun he => ?_, hf', hinv⟩, by simp⟩
    · simp only [fileOpen, hm, hclose, bind_ok]
      rfl
    · exact (Follows.of_sameTable (.with_map s s.freeMap s.disk ms)).trans hfol
    · cases (malloc_quiet hm he).1

lemma fileOpen_null (s : Fs) : ∃ ms, fileOpen s none = .ok (none, { s with mallocs := ms }) ∧
    (s.mallocs = [] → ms = []) := by
  rcases hm : malloc s.mallocs with ⟨ok, ms⟩
  refine ⟨ms, ?_, fun he => (malloc_quiet hm he).2⟩
  simp only [fileOpen, hm]
  rfl

structure Opens (s t : Fs) (b : Books) (name : Name) (r : Option Nat) (refs : List Nat) : Prop where
  disk : SameDisk s t
  follows : Follows s t
  missed : r = none → t.file = s.file ∧ Inv t b refs ∧
    (s.mallocs = [] → ∀ l < rootEntries, ¬ Found (s.slot b.root l) name)
  opened : ∀ f, r = some f → ∃ p k o i, Handle s t f p ∧ Inv t b (p :: refs) ∧ k < rootEntries ∧
    Found (s.slot b.root k) name ∧ o ∈ b.files ∧ o.sector = entrySector (s.slot b.root k) ∧
    t.inode p = some i ∧ i.sector = o.sector

lemma opens_nothing (h : Inv t b refs) (hd : SameDisk s t) (hf : t.file = s.file) (hfol : Follows s t)
    (name : Name) (hn : s.mallocs = [] → ∀ l < rootEntries, ¬ Found (s.slot b.root l) name) :
    ∃ u, fileOpen t none = .ok (none, u) ∧ Opens s u b name none refs := by
  obtain ⟨ms, hrun, hq⟩ := fileOpen_null t
  exact ⟨_, hrun, hd.trans ⟨rfl, rfl, rfl, rfl, hq⟩,
    hfol.trans (.of_sameTable (.with_map t t.freeMap t.disk ms)),
    fun _ => ⟨hf, h.with_mallocs ms, hn⟩, nofun⟩

structure FirstFound (s : Fs) (b : Books) (name : Name) (k : Nat) : Prop where
  lt : k < rootEntries
  found : Found (s.slot b.root k) name
  first : ∀ l < k, ¬ Found (s.slot b.root l) name

lemma opensNamed (h : Inv s b refs) (name : Name) :
    ∃ r t, filesysOpen s name = .ok (r, t) ∧ Opens s t b name r refs ∧
      ∀ f p, r = some f → Handle s t f p → ∃ k i, FirstFound s b name k ∧ t.inode p = some i ∧
        i.sector = entrySector (s.slot b.root k) := by
  obtain ⟨r, t₁, hopen, hd₁, hf₁, hfol₁, hnone, hsome⟩ := h.opensRoot
  rw [filesysOpen, hopen, bind_ok]
  cases r with
  | none =>
    obtain ⟨hne, hinv⟩ := hnone rfl
    obtain ⟨u, hrun, ho⟩ := hinv.opens_nothing hd₁ hf₁ hfol₁ name fun hm => (hne hm).elim
    exact ⟨none, u, hrun, ho, nofun⟩
  | some dir =>
    obtain ⟨h₁, ⟨i₁, hi₁, hs₁⟩, _⟩ := hsome dir rfl
    have hslot : ∀ l, t₁.slot b.root l = s.slot b.root l := fun l => by rw [Fs.slot, Fs.slot, hd₁.disk]
    obtain ⟨r, ms, hlook, hq, hfound, hmiss⟩ := h₁.lookup_spec hi₁ hs₁ name
    have h₂ := h₁.with_mallocs ms
    have hd₂ : SameDisk s { t₁ with mallocs := ms } := hd₁.trans ⟨rfl, rfl, rfl, rfl, hq⟩
    have hfol₂ : Follows s { t₁ with mallocs := ms } :=
      hfol₁.trans (.of_sameTable (.with_map t₁ t₁.freeMap t₁.disk ms))
    rcases r with _ | ⟨e, ofs⟩
    · obtain ⟨t₃, hclose, hd₃, hf₃, hfol₃, h₃, _⟩ := h₂.closesRoot ⟨i₁, hi₁, hs₁⟩
      obtain ⟨u, hrun, ho⟩ := h₃.opens_nothing (hd₂.trans hd₃) (hf₃.trans hf₁)
        (hfol₂.trans hfol₃) name fun hm l hl => hslot l ▸ hmiss rfl (hd₁.quiet hm) l hl
      refine ⟨none, u, ?_, ho, nofun⟩
      simp only [dirLookup, hlook, bind_ok, pure_eq_ok, hclose, hrun]
    · obtain ⟨k, hk, _, rfl, hname, hfirst⟩ := hfound e ofs rfl
      obtain ⟨o, ho, hos⟩ := h₁.names.named k hk hname.1
      obtain ⟨r, t₃, hino, hd₃, hf₃, hlast, hfol₃, hnone₃, hsome₃⟩ := h₂.opens (Books.file_mem ho)
      rw [hos] at hino
      obtain ⟨i₃, hi₃, hs₃, _⟩ := hlast _ i₁ hi₁
      have hroot₃ : OnRoot t₃ dir := ⟨i₃, hi₃, hs₃.trans hs₁⟩
      cases r with
      | none =>
        obtain ⟨hne, h₃⟩ := hnone₃ rfl
        obtain ⟨t₄, hclose, hd₄, hf₄, hfol₄, h₄, _⟩ := h₃.closesRoot hroot₃
        obtain ⟨u, hrun, hop⟩ := h₄.opens_nothing ((hd₂.trans hd₃).trans hd₄)
          (hf₄.trans (hf₃.trans hf₁)) ((hfol₂.trans hfol₃).trans hfol₄) name
          fun hm => (hne (hq (hd₁.quiet hm))).elim
        refine ⟨none, u, ?_, hop, nofun⟩
        simp only [dirLookup, hlook, bind_ok, hino, hclose, hrun]
      | some p =>
        obtain ⟨h₃, j, hj, hjs⟩ := hsome₃ p rfl
        obtain ⟨t₄, hclose, hd₄, hf₄, hfol₄, h₄, hkeep⟩ :=
          (h₃.perm (.swap _ _ _)).closesRoot hroot₃
        have hne : p ≠ dir.inode := by
          rintro rfl
          cases hi₃.symm.trans hj
          exact (Books.sector_ne h.sound.exclusive ho).2 (hjs.symm.trans (hs₃.trans hs₁))
        have hj₄ : t₄.inode p = some j := (hkeep p hne).trans hj
        have hslot₄ : ∀ l, t₄.slot b.root l = s.slot b.root l := fun l => by
          rw [Fs.slot, Fs.slot, hd₄.disk, hd₃.disk, hd₂.disk]
        rw [hslot] at hname hos
        have hnr : j.removed = true → j.openCnt - 1 ≠ 0 := by
          intro hr
          have hgone := (h₄.names.gone p j hj₄ hr).2 k hk
          rw [hslot₄] at hgone
          exact (hgone hname.1 (hos.symm.trans hjs.symm)).elim
        obtain ⟨r, t₅, hfile, hd₅, hfol₅, hnone₅, hsome₅⟩ := h₄.opensFile hj₄ hnr
        have hf₄' : t₄.file = s.file := hf₄.trans (hf₃.trans hf₁)
        have hfol₄' := (hfol₂.trans hfol₃).trans hfol₄
        have hd₄' := (hd₂.trans hd₃).trans hd₄
        refine ⟨r, t₅, ?_, ⟨hd₄'.trans hd₅, hfol₄'.trans hfol₅, fun hr => ?_, fun f hr => ?_⟩,
          fun f q hr hq => ?_⟩
        · simp only [dirLookup, hlook, bind_ok, hino, hclose, hfile]
        · obtain ⟨hne, hf₅, h₅⟩ := hnone₅ hr
          exact ⟨hf₅.trans hf₄', h₅, fun hm => (hne (hd₄'.quiet hm)).elim⟩
        · obtain ⟨h₅, hh, hi₅⟩ := hsome₅ f hr
          refine ⟨p, k, o, j, ⟨hfol₄'.next.trans hh.fresh, hh.file, fun g hg => ?_⟩, h₅, hk, hname, ho, hos,
            hi₅ ▸ hj₄, hjs⟩
          rw [hh.others g hg, hf₄']
        · obtain ⟨_, hh, hi₅⟩ := hsome₅ f hr
          cases hq.file.symm.trans hh.file
          exact ⟨k, j, ⟨hk, hname, fun l hl => hslot l ▸ hfirst l hl⟩, hi₅ ▸ hj₄, hjs.trans hos⟩

end Inv

end Pintos.Filesys
