import Pintos.Filesys.Runs

/-! What a `filesys_create` that returns false leaves behind. -/

namespace Pintos.Filesys

open Pintos.Foundation Pintos.Kernel

variable {s : Fs} {b : Books} {held : List (Nat × Nat)}

def Fs.mapMallocs (s : Fs) : Nat := if byteCnt s.sectors % 512 = 0 then 0 else 1

lemma SameBits.sets {b c d : Bitmap} (h : SameBits b c) {x cnt : Nat} {v : Bool} (hs : c.Sets d x cnt v) :
    b.Sets d x cnt v := by
  refine ⟨hs.1.trans h.1, fun k hk => ?_⟩
  rw [hs.2 k (h.1.symm ▸ hk), h.2 k hk]

lemma sets_of_sector_undone {b c d e : Bitmap} {x start cnt : Nat} (hx : b.Fits false 1 x)
    (hc : b.Sets c x 1 true) (hf : c.Fits false cnt start) (hd : c.Sets d start cnt true)
    (he : d.Sets e x 1 false) : b.Sets e start cnt true := by
  have hxb : b.bit x = false := hx.2 0 (by omega)
  have hxlt : x < b.bitCnt := by
    have := hx.1
    omega
  have hxc : c.bit x = true := (hc.2 x hxlt).trans (if_pos ⟨le_rfl, by omega⟩)
  have hout : ¬ (start ≤ x ∧ x < start + cnt) := by
    intro hm
    have hfree := hf.2 (x - start) (by omega)
    rw [Nat.add_sub_cancel' hm.1, hxc] at hfree
    cases hfree
  refine ⟨he.1.trans (hd.1.trans hc.1), fun k hk => ?_⟩
  rw [he.2 k (by rw [hd.1, hc.1]; exact hk), hd.2 k (hc.1.symm ▸ hk), hc.2 k hk]
  by_cases hkx : k = x
  · subst hkx
    rw [if_pos (by omega), if_neg hout, hxb]
  · rw [if_neg (by omega : ¬ (x ≤ k ∧ k < x + 1)), if_neg (by omega : ¬ (x ≤ k ∧ k < x + 1))]

lemma fits_of_taken {b c : Bitmap} {x start cnt : Nat} (hx : x < b.bitCnt) (hc : b.Sets c x 1 true) :
    c.Fits false cnt start ↔ b.Fits false cnt start ∧ ¬ (start ≤ x ∧ x < start + cnt) := by
  constructor
  · intro hf
    have hle : start + cnt ≤ b.bitCnt := hc.1 ▸ hf.1
    have hout : ¬ (start ≤ x ∧ x < start + cnt) := by
      intro hm
      have hfree := hf.2 (x - start) (by omega)
      rw [Nat.add_sub_cancel' hm.1, hc.2 x hx, if_pos ⟨le_rfl, by omega⟩] at hfree
      cases hfree
    refine ⟨⟨hle, fun j hj => ?_⟩, hout⟩
    have hfree := hf.2 j hj
    rwa [hc.2 (start + j) (by omega), if_neg (by omega)] at hfree
  · rintro ⟨hf, hout⟩
    refine ⟨hc.1.symm ▸ hf.1, fun j hj => ?_⟩
    have hle := hf.1
    rw [hc.2 (start + j) (by omega), if_neg (by omega), hf.2 j hj]

namespace Allocates

variable {fm : Obj} {cnt : Nat} {r : Option Nat} {c : Bitmap} {bs : List Byte} {ms all : List Bool}
  {k : Nat}

lemma bounced_iff (hl : fm.length = byteCnt s.sectors) : Bounced 0 fm.length ↔ s.mapMallocs = 1 := by
  rw [Bounced, Fs.mapMallocs, hl]
  split
  · next hz => simp [hz]
  · next hz =>
    simp only [Nat.zero_mod, ne_eq, not_true_eq_false, Nat.zero_add, false_or, iff_true]
    refine ⟨fun h0 => hz (by rw [h0]), hz⟩

lemma granted (ha : Allocates s fm cnt r c bs ms) (hl : fm.length = byteCnt s.sectors)
    (hf : s.freeMapFile ≠ none) (hk : s.mallocs = all.drop k) :
    r ≠ none ↔ (∃ x, s.freeMap.Fits false cnt x) ∧ ∀ i < s.mapMallocs, all.getD (k + i) true = true := by
  have hm : (malloc s.mallocs).1 = all.getD k true := by rw [hk, malloc_drop]
  rw [ha.some_iff, hm, bounced_iff hl]
  apply and_congr_right
  intro _
  constructor
  · rintro (hn | hn | hg) i hi
    · exact (hf hn).elim
    · rw [Fs.mapMallocs] at hn hi
      split at hi
      · omega
      · next hz => exact (hn (if_neg hz)).elim
    · have hi0 : i = 0 := by
        rw [Fs.mapMallocs] at hi
        split at hi <;> omega
      rw [hi0]
      exact hg
  · intro hg
    by_cases hb : s.mapMallocs = 1
    · exact .inr (.inr (hg 0 (by omega)))
    · exact .inr (.inl hb)

lemma rest (ha : Allocates s fm cnt r c bs ms) (hl : fm.length = byteCnt s.sectors)
    (hf : s.freeMapFile ≠ none) (hk : s.mallocs = all.drop k) (hr : r ≠ none) :
    ms = all.drop (k + s.mapMallocs) := by
  by_cases hb : s.mapMallocs = 1
  · rw [ha.popped (ha.some_iff.mp hr).1 hf ((bounced_iff hl).mpr hb), hk, malloc_drop, hb]
  · have h0 : s.mapMallocs = 0 := by
      rw [Fs.mapMallocs] at hb ⊢
      split
      · rfl
      · next hz => exact (hb (if_neg hz)).elim
    rw [ha.kept (.inr (.inr fun hh => hb ((bounced_iff hl).mp hh))), hk, h0]
    rfl

end Allocates

def Room (map : Bitmap) (cnt : Nat) : Prop :=
  ∃ x, map.Fits false 1 x ∧ (∀ y < x, ¬ map.Fits false 1 y) ∧
    ∃ start, map.Fits false cnt start ∧ ¬ (start ≤ x ∧ x < start + cnt)

def Proceeds (s : Fs) (length : Int) : Prop :=
  0 ≤ length ∧ (∀ i < 3 + 2 * s.mapMallocs, s.mallocs.getD i true = true) ∧
    Room s.freeMap (bytesToSectors length)

lemma Room.fits {map c : Bitmap} {cnt x : Nat} (h : Room map cnt) (hx : map.Fits false 1 x)
    (hfirst : ∀ y < x, ¬ map.Fits false 1 y) (hc : map.Sets c x 1 true) : ∃ start, c.Fits false cnt start := by
  obtain ⟨x', hx', hfirst', start, hs⟩ := h
  have he : x' = x := by
    rcases Nat.lt_trichotomy x' x with hlt | heq | hgt
    · exact (hfirst x' hlt hx').elim
    · exact heq
    · exact (hfirst' x hgt hx).elim
  subst he
  have hle := hx.1
  exact ⟨start, (fits_of_taken (by omega) hc).mpr hs⟩

structure SameOpen (s t : Fs) : Prop where
  openInodes : t.openInodes = s.openInodes
  inode : t.inode = s.inode

section Root

variable (h : Live s b held)

include h

lemma Live.root_closed {p : Nat} {i : Inode} (hi : s.inode p = some i) : b.root.sector ≠ i.sector := by
  rw [b.root_sector]
  intro hs
  rcases List.mem_cons.mp (h.inv.table.mem_refs hi) with rfl | hm
  · obtain ⟨j, hj, hz⟩ := h.inv.fmBacked
    cases hi.symm.trans hj
    rw [hz] at hs
    cases hs
  · obtain ⟨⟨f, q⟩, hq, rfl⟩ := List.mem_map.mp hm
    exact (h.regular f q hq i hi).2 hs.symm

lemma Live.closed_opened {ms : List Bool} {u : Fs} (hu : SameTable (s.opened ms b.root) u) :
    dirClose u (some ⟨s.next, 0⟩) = .ok (u.closed s.next) ∧ SameOpen s (u.closed s.next) := by
  have hi : u.inode s.next = some
      { sector := b.root.sector, openCnt := 1, removed := false, denyWriteCnt := 0, data := b.root.data } := by
    rw [hu.inode]
    exact if_pos rfl
  refine ⟨Inv.inodeClose_kept hi (by rfl) rfl, ?_, ?_⟩
  · change u.openInodes.erase s.next = s.openInodes
    rw [hu.openInodes]
    exact List.erase_cons_head ..
  · funext q
    rw [closed_inode, hu.inode, Inv.opened_inode]
    split
    · next hq => rw [hq, (h.inv.table.fresh s.next le_rfl).1]
    · rfl

lemma Live.inodeOpen_root : inodeOpen s rootDirSector = .ok (if s.mallocs.getD 0 true = true then
    (some s.next, s.opened (s.mallocs.drop 1) b.root) else (none, { s with mallocs := s.mallocs.drop 1 })) := by
  have hm := malloc_drop s.mallocs 0
  rw [List.drop_zero] at hm
  rcases h.inv.inodeOpen_cases b.root_mem with ⟨p, i, hi, hs, _⟩ | ⟨_, ms, ⟨hms, hrun⟩ | ⟨hms, hrun⟩⟩
  · exact (h.root_closed hi hs.symm).elim
  · obtain ⟨hok, rfl⟩ := Prod.mk.inj (hms.symm.trans hm)
    rw [b.root_sector] at hrun
    rw [hrun, if_neg (by rw [← hok]; exact Bool.false_ne_true)]
  · obtain ⟨hok, rfl⟩ := Prod.mk.inj (hms.symm.trans hm)
    rw [b.root_sector] at hrun
    rw [hrun, if_pos hok.symm]

lemma Live.dirOpenRoot_cases :
    (s.mallocs.getD 0 true = true ∧ s.mallocs.getD 1 true = true ∧
      dirOpenRoot s = .ok (some ⟨s.next, 0⟩, s.opened (s.mallocs.drop 2) b.root)) ∨
    (¬ (s.mallocs.getD 0 true = true ∧ s.mallocs.getD 1 true = true) ∧
      ∃ t, dirOpenRoot s = .ok (none, t) ∧ SameOpen s t ∧ t.freeMap = s.freeMap) := by
  have hm := malloc_drop s.mallocs 1
  rw [dirOpenRoot, h.inodeOpen_root, bind_ok]
  by_cases h0 : s.mallocs.getD 0 true = true
  · rw [if_pos h0]
    have hms : (s.opened (s.mallocs.drop 1) b.root).mallocs = s.mallocs.drop 1 := rfl
    cases h1 : s.mallocs.getD 1 true with
    | true =>
      left
      refine ⟨h0, rfl, ?_⟩
      simp only [dirOpen, hms, hm, h1]
      rfl
    | false =>
      right
      refine ⟨fun hh => Bool.false_ne_true hh.2, ?_⟩
      have htab : SameTable (s.opened (s.mallocs.drop 1) b.root)
          { s.opened (s.mallocs.drop 1) b.root with mallocs := s.mallocs.drop 2 } := .with_map _ _ _ _
      obtain ⟨hclose, hsame⟩ := h.closed_opened htab
      refine ⟨_, ?_, hsame, rfl⟩
      simp only [dirClose] at hclose
      simp only [dirOpen, hms, hm, h1, hclose, bind_ok]
      rfl
  · right
    rw [if_neg h0]
    refine ⟨fun hh => h0 hh.1, { s with mallocs := s.mallocs.drop 2 }, ?_, ⟨rfl, rfl⟩, rfl⟩
    simp only [dirOpen, hm]
    cases s.mallocs.getD 1 true with
    | true => rfl
    | false => rfl

end Root

def createIn (s : Fs) (dir : Dir) (name : Name) (initialSize : Int) : Except Panic (Bool × Fs) := do
  match ← freeMapAllocate s 1 with
  | (none, s) => return (false, s)
  | (some inodeSector, s) =>
    let (ok, s) ← inodeCreate s inodeSector initialSize
    let (ok, s) ← if ok then dirAdd s dir name inodeSector else pure (false, s)
    let s ← if !ok ∧ inodeSector ≠ 0 then freeMapRelease s inodeSector 1 else pure s
    return (ok, s)

lemma filesysCreate_eq {s u : Fs} {dir : Dir} (name : Name) (initialSize : Int)
    (h : dirOpenRoot s = .ok (some dir, u)) :
    filesysCreate s name initialSize =
      createIn u dir name initialSize >>= fun (ok, v) => do return (ok, ← dirClose v (some dir)) := by
  have htail : ∀ (ok : Bool) (x : Nat) (v : Fs),
      (if !ok ∧ x ≠ 0 then freeMapRelease v x 1 >>= fun w => do return (ok, ← dirClose w (some dir))
        else do return (ok, ← dirClose v (some dir))) =
      (if !ok ∧ x ≠ 0 then freeMapRelease v x 1 >>= fun w => pure (ok, w) else pure (ok, v)) >>=
        fun y => do return (y.1, ← dirClose y.2 (some dir)) := by
    intro ok x v
    split
    · simp only [bind_assoc, pure_bind]
    · rfl
  simp only [filesysCreate, createIn, h, bind_ok]
  cases freeMapAllocate u 1 with
  | error e => rfl
  | ok r =>
    obtain ⟨_ | x, v⟩ := r
    · rfl
    · simp only [bind_ok]
      cases inodeCreate v x initialSize with
      | error e => rfl
      | ok r =>
        obtain ⟨_ | _, v⟩ := r
        · simp only [bind_ok, pure_bind, Bool.false_eq_true, if_false]
          exact htail false x v
        · simp only [bind_ok, if_true]
          cases dirAdd v dir name x with
          | error e => rfl
          | ok r =>
            simp only [bind_ok, pure_bind]
            exact htail r.1 x r.2

lemma granted_all {all : List Bool} {n : Nat} (h₁ : ∀ i < n, all.getD (2 + i) true = true)
    (h₂ : all.getD (2 + n) true = true) (h₃ : ∀ i < n, all.getD (2 + n + 1 + i) true = true) :
    ∀ i < 1 + 2 * n, all.getD (2 + i) true = true := by
  intro i hi
  rcases Nat.lt_trichotomy i n with hlt | rfl | hgt
  · exact h₁ i hlt
  · exact h₂
  · have := h₃ (i - n - 1) (by omega)
    rwa [show 2 + n + 1 + (i - n - 1) = 2 + i by omega] at this

def Abandons (s t : Fs) (cnt : Nat) (proceeds : Prop) : Prop :=
  (¬ proceeds ∧ SameBits s.freeMap t.freeMap) ∨
    (proceeds ∧ ∃ start, s.freeMap.Fits false cnt start ∧ s.freeMap.Sets t.freeMap start cnt true)

def Declines (s : Fs) (b : Books) (name : Name) : Prop :=
  nameValid name = false ∨ (∃ l < rootEntries, Found (s.slot b.root l) name) ∨
    ∀ l < rootEntries, entryInUse (s.slot b.root l) = true

variable {t : Fs}

lemma Declines.of_root {name : Name} (h : Declines t b name)
    (hr : t.content b.root = s.content b.root) : Declines s b name := by
  rcases h with h | ⟨l, hl, h⟩ | h
  · exact .inl h
  · exact .inr (.inl ⟨l, hl, slot_congr hr hl ▸ h⟩)
  · exact .inr (.inr fun l hl => slot_congr hr hl ▸ h l hl)

namespace Inv

variable {u v : Fs} {refs : List Nat} {dir : Dir} {all : List Bool} {x length : Nat}

lemma createIn_refused (h : Inv v b refs) (hx : Reserved v b x 1) (dir : Dir) (name : Name)
    (halloc : freeMapAllocate s 1 = .ok (some x, u)) (hcreate : inodeCreate u x length = .ok (false, v)) :
    ∃ w, createIn s dir name length = .ok (false, w) ∧ SameTable v w ∧ v.freeMap.Sets w.freeMap x 1 false := by
  obtain ⟨w, hrel, _, _, htab, hset⟩ := h.release hx
  refine ⟨w, ?_, htab, hset⟩
  have hx0 : x ≠ 0 := ne_zero_of_notMem (hx.2 x le_rfl (by omega)).1
  simp [createIn, halloc, hcreate, hx0, hrel, pure_eq_ok]

lemma createIn_placed {o : Obj} (h : Inv v (b.add o) refs) (hr : OnRoot v dir) (hnew : o.sector ∉ owned b.objs)
    (hu : Unnamed v b o.sector) (hc : ∀ p j, v.inode p = some j → o.sector ≠ j.sector) (name : Name)
    (halloc : freeMapAllocate s 1 = .ok (some o.sector, u))
    (hcreate : inodeCreate u o.sector o.length = .ok (true, v)) :
    ∃ ok w, createIn s dir name o.length = .ok (ok, w) ∧ SameTable v w ∧
      (ok = false → v.freeMap.Sets w.freeMap o.sector 1 false) ∧
      (ok = false → v.mallocs = [] → Declines v b name) := by
  obtain ⟨i, hi, hs⟩ := hr
  obtain ⟨ok, w, hadd, h₁, ha⟩ := h.adds hi hs List.mem_cons_self hu hc name
  cases ok with
  | true =>
    refine ⟨true, w, ?_, ha.table, nofun, nofun⟩
    simp [createIn, halloc, hcreate, hadd, pure_eq_ok]
  | false =>
    have hdrop := h₁.drop List.mem_cons_self (fun p j hj => hc p j (ha.table.inode ▸ hj))
      (hu.congr (ha.refused rfl))
    have hres := h₁.reserved_of_drop List.mem_cons_self
    rw [Books.erase_add] at hdrop hres
    obtain ⟨w', hrel, _, _, htab, hset⟩ := hdrop.release hres
    refine ⟨false, w', ?_, ha.table.trans htab, fun _ => ha.freeMap ▸ hset, ha.declined⟩
    simp [createIn, halloc, hcreate, hadd, hrel, ne_zero_of_notMem hnew, pure_eq_ok]

lemma createIn_spec (h : Inv s b refs) (hroot : OnRoot s dir) (hms : s.mallocs = all.drop 2) (name : Name)
    (hl : length < 2147483648) :
    ∃ ok t, createIn s dir name length = .ok (ok, t) ∧ SameTable s t ∧ (ok = false →
      Abandons s t (bytesToSectors length) ((∀ i < 1 + 2 * s.mapMallocs, all.getD (2 + i) true = true) ∧
        Room s.freeMap (bytesToSectors length))) ∧
      (ok = false → s.mallocs = [] → Room s.freeMap (bytesToSectors length) → Declines s b name) := by
  have hquiet : s.mallocs = [] → ∀ i, all.getD (2 + i) true = true := by
    intro he i
    rw [hms, List.drop_eq_nil_iff] at he
    exact List.getD_eq_default _ _ (by omega)
  have hfile : s.freeMapFile ≠ none := h.fmOpen.symm ▸ Option.some_ne_none _
  obtain ⟨r, c, bs, ms, halloc, ha, h₁, hst₁, hbits⟩ := h.allocates 1
  have hgr := ha.granted h.fmLength hfile hms
  have htab₁ : SameTable s _ := .with_map s c (s.disk.write b.fm.base bs) ms
  cases r with
  | none =>
    have hno : ¬ ((∀ i < 1 + 2 * s.mapMallocs, all.getD (2 + i) true = true) ∧
        Room s.freeMap (bytesToSectors length)) := by
      rintro ⟨hmall, x, hx, _⟩
      exact hgr.mpr ⟨⟨x, hx⟩, fun i hi => hmall i (by omega)⟩ rfl
    exact ⟨false, _, by simp only [createIn, halloc, bind_ok]; rfl, htab₁, fun _ => .inl ⟨hno, ha.same rfl⟩,
      fun _ hm hroom => (hno ⟨fun i _ => hquiet hm i, hroom⟩).elim⟩
  | some x =>
  obtain ⟨hfit, hset, _⟩ := ha.taken x rfl
  have hfirst := ha.first x rfl
  have hres := h.reserved_of_allocates ha
  obtain rfl := ha.rest h.fmLength hfile hms (Option.some_ne_none x)
  have hm := malloc_drop all (2 + s.mapMallocs)
  cases hok : all.getD (2 + s.mapMallocs) true with
  | false =>
    rw [hok] at hm
    obtain ⟨w, hrun, htab, hundo⟩ := (h₁.with_mallocs (all.drop (2 + s.mapMallocs + 1))).createIn_refused
      hres dir name halloc (inodeCreate_refused x length hm)
    have hno : ¬ ∀ i < 1 + 2 * s.mapMallocs, all.getD (2 + i) true = true := by
      intro hmall
      have := hmall s.mapMallocs (by omega)
      rw [hok] at this
      cases this
    exact ⟨false, w, hrun, (htab₁.trans (.with_map _ _ _ _)).trans htab,
      fun _ => .inl ⟨fun hp => hno hp.1, sameBits_of_undone hfit hset hundo⟩,
      fun _ hm _ => (hno fun i _ => hquiet hm i).elim⟩
  | true =>
  rw [hok] at hm
  have h₂ := h₁.with_mallocs (all.drop (2 + s.mapMallocs + 1))
  obtain ⟨r, d, bs', ms', halloc', ha', h₃, hst₃, hbits'⟩ := h₂.allocates (bytesToSectors length)
  have hgr' := ha'.granted h.fmLength hfile rfl
  let u : Fs := { s with freeMap := d, disk := (s.disk.write b.fm.base bs).write b.fm.base bs', mallocs := ms' }
  have htab₃ : SameTable s u := .with_map s d _ ms'
  have hres' : Reserved u b x 1 := hres.mono rfl hbits'
  cases r with
  | none =>
    obtain ⟨w, hrun, htab, hundo⟩ := h₃.createIn_refused hres' dir name halloc
      (inodeCreate_no_extent x length hm halloc')
    have hno : ¬ ((∀ i < 1 + 2 * s.mapMallocs, all.getD (2 + i) true = true) ∧
        Room s.freeMap (bytesToSectors length)) := by
      rintro ⟨hmall, hroom⟩
      refine hgr'.mpr ⟨hroom.fits hfit hfirst hset, fun i hi => ?_⟩ rfl
      have hi : i < s.mapMallocs := hi
      have := hmall (s.mapMallocs + 1 + i) (by omega)
      rwa [show 2 + (s.mapMallocs + 1 + i) = 2 + s.mapMallocs + 1 + i by omega] at this
    exact ⟨false, w, hrun, htab₃.trans htab,
      fun _ => .inl ⟨hno, sameBits_of_undone hfit hset ((ha'.same rfl).sets hundo)⟩,
      fun _ hm hroom => (hno ⟨fun i _ => hquiet hm i, hroom⟩).elim⟩
  | some start =>
  obtain ⟨hfit', hset', _⟩ := ha'.taken start rfl
  have hsub := (fits_of_taken (show x < s.freeMap.bitCnt from hfit.1) hset).mp hfit'
  have hext := h₂.reserved_of_allocates ha'
  let o : Obj := ⟨x, start, length, hl⟩
  have hself : x ∉ o.extent := fun hm => hsub.2 (Obj.mem_extent.mp hm)
  have hnew := (hres.2 x le_rfl (by omega)).1
  obtain ⟨h₄, hst₄, _⟩ := h₃.place (o := o) hres' hext hself
  have hcreate := inodeCreate_placed length hm halloc' (show x < s.sectors from hres.1) hext.1
  obtain ⟨ok, w, hrun, htab, hundo, hdecl⟩ := h₄.createIn_placed (o := o) (hroot.congr rfl) hnew
    ((h₃.unnamed_of_notMem hnew).congr hst₄.root) (h₃.closed_of_notMem hnew) name halloc hcreate
  refine ⟨ok, w, hrun, (htab₃.trans (.with_map _ _ _ _)).trans htab, fun hf => .inr ⟨⟨?_, ?_⟩, ?_⟩,
    fun hf hq _ => ?_⟩
  · exact granted_all (hgr.mp (Option.some_ne_none x)).2 hok (hgr'.mp (Option.some_ne_none start)).2
  · exact ⟨x, hfit, hfirst, start, hsub⟩
  · exact ⟨start, hsub.1, sets_of_sector_undone hfit hset hfit' hset' (hundo hf)⟩
  · have hq' : all.drop (2 + s.mapMallocs + 1) = [] := by
      rw [hms, List.drop_eq_nil_iff] at hq
      exact List.drop_eq_nil_iff.mpr (by omega)
    apply (hdecl hf (ha'.quiet hq')).of_root
    exact hst₄.root.trans (hst₃.root.trans hst₁.root)

lemma createIn_negative (h : Inv s b refs) (name : Name) {length : Int} (hl : length < 0) {t : Fs} {ok : Bool}
    (hrun : createIn s dir name length = .ok (ok, t)) : SameTable s t ∧ SameBits s.freeMap t.freeMap := by
  obtain ⟨r, c, bs, ms, halloc, ha, _⟩ := h.allocates 1
  simp only [createIn, halloc, bind_ok] at hrun
  cases r with
  | none =>
    cases hrun
    exact ⟨.with_map s c _ ms, ha.same rfl⟩
  | some x =>
    simp only [inodeCreate_negative _ x hl, bind_error] at hrun
    cases hrun

end Inv

lemma proceeds_iff (s : Fs) {length : Int} (hl : 0 ≤ length) :
    Proceeds s length ↔ (s.mallocs.getD 0 true = true ∧ s.mallocs.getD 1 true = true) ∧
      (∀ i < 1 + 2 * s.mapMallocs, s.mallocs.getD (2 + i) true = true) ∧
        Room s.freeMap (bytesToSectors length) := by
  rw [Proceeds, and_iff_right hl, ← and_assoc]
  apply and_congr_left'
  constructor
  · intro hall
    exact ⟨⟨hall 0 (by omega), hall 1 (by omega)⟩, fun i hi => hall (2 + i) (by omega)⟩
  · rintro ⟨⟨h0, h1⟩, hrest⟩ i hi
    match i with
    | 0 => exact h0
    | 1 => exact h1
    | i + 2 => exact Nat.add_comm 2 i ▸ hrest i (by omega)

lemma Live.opened_root (h : Live s b held) :
    Inv (s.opened (s.mallocs.drop 2) b.root) b (s.next :: held.map Prod.snd) ∧
      OnRoot (s.opened (s.mallocs.drop 2) b.root) ⟨s.next, 0⟩ :=
  ⟨h.inv.opened b.root_mem (fun p i hi => h.root_closed hi) fun hq => by rw [hq]; rfl,
    _, if_pos rfl, b.root_sector⟩

lemma Live.create_false (h : Live s b held) (name : Name)
    (size : Off) (hrun : filesysCreate s name size = .ok (false, t)) :
    SameOpen s t ∧ Abandons s t (bytesToSectors size) (Proceeds s size) := by
  rcases h.dirOpenRoot_cases with ⟨h0, h1, hopen⟩ | ⟨hno, u, hopen, hsame, hmap⟩
  · obtain ⟨hu, hroot⟩ := h.opened_root
    rw [filesysCreate_eq name size hopen] at hrun
    obtain ⟨⟨ok, v⟩, hin, hclose⟩ := bind_eq_ok.mp hrun
    have hv : SameTable (s.opened (s.mallocs.drop 2) b.root) v ∧ (ok = false →
        Abandons s v (bytesToSectors size) (Proceeds s size)) := by
      rcases Int.lt_or_le size.val 0 with hneg | hpos
      · obtain ⟨htab, hsame⟩ := hu.createIn_negative name hneg hin
        exact ⟨htab, fun _ => .inl ⟨fun hp => absurd hp.1 (by omega), hsame⟩⟩
      · rw [(proceeds_iff s hpos).trans (and_iff_right ⟨h0, h1⟩)]
        obtain ⟨n, hn⟩ := Int.eq_ofNat_of_zero_le hpos
        have hmax := size.property.2
        rw [hn] at hin ⊢
        obtain ⟨ok', v', hin', htab, hab, _⟩ := hu.createIn_spec hroot rfl name (show n < 2147483648 by omega)
        cases hin.symm.trans hin'
        exact ⟨htab, hab⟩
    obtain ⟨hrun', hsame⟩ := h.closed_opened hv.1
    simp only [hrun', bind_ok] at hclose
    cases hclose
    exact ⟨hsame, hv.2 rfl⟩
  · simp only [filesysCreate, hopen, bind_ok] at hrun
    cases hrun
    exact ⟨hsame, .inl ⟨fun hp => hno ((proceeds_iff s hp.1).mp hp).1, hmap ▸ .refl _⟩⟩

lemma Live.create_true (h : Live s b held)
    (hq : s.mallocs = []) (name : Name) {length : Nat} (hl : length < 2147483648)
    (hroom : Room s.freeMap (bytesToSectors length)) (hname : ¬ Declines s b name) :
    ∃ t b', filesysCreate s name length = .ok (true, t) ∧ Live t b' held ∧
      Creates s t b b' name length true := by
  obtain ⟨ok, t, b', hrun, hlive, hc⟩ := (h.creates name (Int.ofNat_lt.mpr hl)).resolve_right (by omega)
  rcases h.dirOpenRoot_cases with ⟨_, _, hopen⟩ | ⟨hno, _⟩
  · obtain ⟨hu, hroot⟩ := h.opened_root
    obtain ⟨ok', v, hin, htab, _, hdecl⟩ := hu.createIn_spec hroot rfl name hl
    obtain ⟨hclose, _⟩ := h.closed_opened htab
    have hrun' : filesysCreate s name length = .ok (ok', v.closed s.next) := by
      simp only [filesysCreate_eq name length hopen, hin, bind_ok, hclose]
      rfl
    cases hrun'.symm.trans hrun
    cases ok with
    | true => exact ⟨_, b', hrun, hlive, hc⟩
    | false => exact (hname ((hdecl rfl (by rw [hq]; rfl) hroom).of_root rfl)).elim
  · rw [hq] at hno
    exact (hno ⟨rfl, rfl⟩).elim

def Fs.directory (s : Fs) : List Byte :=
  s.disk.read (512 * (s.diskInode rootDirSector).start) (s.diskInode rootDirSector).length.toNat

structure Unchanged (s t : Fs) : Prop where
  freeMap : SameBits s.freeMap t.freeMap
  directory : t.directory = s.directory
  openInodes : t.openInodes = s.openInodes
  inode : t.inode = s.inode

lemma Inv.directory_eq {refs : List Nat} (h : Inv s b refs) : s.directory = s.content b.root := by
  have hroot := h.diskInode_eq b.root_mem
  rw [b.root_sector] at hroot
  rw [Fs.directory, hroot]
  rfl

lemma Live.directory_of_create_false (h : Live s b held)
    (name : Name) (size : Off) (hrun : filesysCreate s name size = .ok (false, t)) :
    t.directory = s.directory := by
  rcases h.creates name size.property.2 with ⟨ok, u, b', hrun', hlive, hc⟩ | ⟨-, hrun'⟩
  swap
  · cases hrun.symm.trans hrun'
  cases hrun.symm.trans hrun'
  obtain ⟨rfl, hr⟩ := hc.refused rfl
  rw [hlive.inv.directory_eq, h.inv.directory_eq, hr]

/-- A create that returns false has kept everything unless it got as far as an inode with data: then
the data's sectors stay allocated. -/
theorem failed_create_unchanged_iff {m : Machine} (h : system.Reachable m) (name : Name) (size : Off)
    (mallocs : List Bool) {t : Fs}
    (hrun : filesysCreate { m.fs with mallocs } name size = .ok (false, t)) :
    Unchanged m.fs t ↔ size.val = 0 ∨ ¬ Proceeds { m.fs with mallocs } size := by
  obtain ⟨b, held, hlive, _⟩ := reachable_good h
  have hlive' := hlive.with_mallocs mallocs
  obtain ⟨hopen, hab⟩ := hlive'.create_false name size hrun
  have hdir := hlive'.directory_of_create_false name size hrun
  have hiff : Unchanged m.fs t ↔ SameBits m.fs.freeMap t.freeMap :=
    ⟨Unchanged.freeMap, fun hb => ⟨hb, hdir, hopen.openInodes, hopen.inode⟩⟩
  rw [hiff]
  rcases hab with ⟨hno, hsame⟩ | ⟨hp, start, hfit, hset⟩
  · exact iff_of_true hsame (.inr hno)
  · obtain ⟨n, hn⟩ := Int.eq_ofNat_of_zero_le hp.1
    have hmax := size.property.2
    by_cases hz : size.val = 0
    · refine iff_of_true ⟨hset.1, fun k hk => ?_⟩ (.inl hz)
      rw [hz] at hset
      exact (hset.2 k hk).trans (if_neg (by rw [show bytesToSectors 0 = 0 by decide]; omega))
    · refine iff_of_false (fun hb => ?_) (by simp [hz, hp])
      have hpos : 0 < bytesToSectors size := by
        have hle := le_bytesToSectors (n := n) (by omega)
        rw [← hn, blockSectorSize] at hle
        omega
      have hlt : start < m.fs.freeMap.bitCnt := by
        have hle : start + bytesToSectors size ≤ m.fs.freeMap.bitCnt := hfit.1
        omega
      have hfree : m.fs.freeMap.bit start = false := hfit.2 0 hpos
      have hused := hset.2 start hlt
      rw [if_pos ⟨le_rfl, by omega⟩, hb.2 start hlt, hfree] at hused
      cases hused

theorem failed_create_unchanged_when_empty :
    ∃ m t, system.Reachable m ∧ filesysCreate { m.fs with mallocs := [] } nameA 0 = .ok (false, t) ∧
      Unchanged m.fs t := by
  have hrun : ((smallRun [.create nameA ⟨0, by decide⟩]).map fun m =>
      (filesysCreate { m.fs with mallocs := [] } nameA 0).toOption.map Prod.fst) = some (some false) := by
    decide +kernel
  obtain ⟨m, hm, he⟩ := Option.map_eq_some_iff.mp hrun
  cases hc : filesysCreate { m.fs with mallocs := [] } nameA 0 with
  | error e =>
    rw [hc] at he
    cases he
  | ok r =>
    obtain ⟨ok, t⟩ := r
    rw [hc] at he
    cases he
    have hr := (smallRun_reachable hm).reachable
    exact ⟨m, t, hr, hc, (failed_create_unchanged_iff hr nameA ⟨0, by decide⟩ [] hc).mpr (.inl rfl)⟩

theorem failed_create_keeps_data_sectors :
    ∃ m t, system.Reachable m ∧ filesysCreate { m.fs with mallocs := [] } nameA 600 = .ok (false, t) ∧
      m.fs.freeMap.bit 8 = false ∧ t.freeMap.bit 8 = true ∧ m.fs.freeMap.bit 9 = false ∧
      t.freeMap.bit 9 = true ∧ ¬ Unchanged m.fs t := by
  have hrun : ((smallRun [.create nameA ⟨600, by decide⟩]).map fun m =>
      ((filesysCreate { m.fs with mallocs := [] } nameA 600).toOption.map fun r =>
        (r.1, r.2.freeMap.bit 8, r.2.freeMap.bit 9), m.fs.freeMap.bit 8, m.fs.freeMap.bit 9,
        m.fs.freeMap.bitCnt)) = some (some (false, true, true), false, false, 12) := by
    decide +kernel
  obtain ⟨m, hm, he⟩ := Option.map_eq_some_iff.mp hrun
  cases hc : filesysCreate { m.fs with mallocs := [] } nameA 600 with
  | error e =>
    rw [hc] at he
    cases he
  | ok r =>
    obtain ⟨ok, t⟩ := r
    rw [hc] at he
    simp only [Except.toOption, Option.map_some, Prod.mk.injEq, Option.some.injEq] at he
    obtain ⟨⟨rfl, h8, h9⟩, h8', h9', hcnt⟩ := he
    refine ⟨m, t, (smallRun_reachable hm).reachable, hc, h8', h8, h9', h9, fun hu => ?_⟩
    have hb := hu.freeMap.2 8 (by omega)
    rw [h8, h8'] at hb
    cases hb

end Pintos.Filesys
