import Mathlib.Data.Finmap
import Pintos.Filesys.ShortReads

/-! Directories of any size as finite maps from names to sectors. -/

namespace Pintos.Filesys

open Pintos.Foundation Pintos.Kernel

abbrev DirMap := Finmap fun _ : List Byte => Nat

/-- The entries in use of the `n` slots of `d` are the bindings of `m`. -/
structure Represents (s : Fs) (d : Obj) (n : Nat) (m : DirMap) : Prop where
  lookup_iff : ∀ name sector, m.lookup name = some sector ↔ ∃ k < n, entryInUse (s.slot d k) = true ∧
    entryName (s.slot d k) = name ∧ entrySector (s.slot d k) = sector
  distinct : DistinctNames s d n

namespace Represents

variable {s t : Fs} {d : Obj} {n : Nat} {m : DirMap} {name : Name}

lemma empty (h : ∀ k < n, entryInUse (s.slot d k) ≠ true) : Represents s d n ∅ where
  lookup_iff name sector := by
    rw [Finmap.lookup_empty]
    refine ⟨nofun, ?_⟩
    rintro ⟨k, hk, hu, -⟩
    exact (h k hk hu).elim
  distinct k hk _ _ hu := (h k hk hu).elim

variable (h : Represents s d n m)

include h

lemma congr (hs : ∀ k < n, t.slot d k = s.slot d k) : Represents t d n m where
  lookup_iff name sector := by
    rw [h.lookup_iff]
    constructor
    · rintro ⟨k, hk, hrest⟩
      exact ⟨k, hk, by rwa [hs k hk]⟩
    · rintro ⟨k, hk, hrest⟩
      exact ⟨k, hk, by rwa [hs k hk] at hrest⟩
  distinct k hk l hl := by
    rw [hs k hk, hs l hl]
    exact h.distinct k hk l hl

lemma mem_iff : name.val ∈ m ↔ ∃ k < n, Found (s.slot d k) name := by
  rw [← Finmap.lookup_isSome, Option.isSome_iff_exists]
  constructor
  · rintro ⟨sector, hsector⟩
    obtain ⟨k, hk, hu, hname, -⟩ := (h.lookup_iff _ _).mp hsector
    exact ⟨k, hk, hu, hname.symm⟩
  · rintro ⟨k, hk, hu, hname⟩
    exact ⟨_, (h.lookup_iff _ _).mpr ⟨k, hk, hu, hname.symm, rfl⟩⟩

variable {k : Nat}

lemma mem_of_inUse (hk : k < n) (hu : entryInUse (s.slot d k) = true) : entryName (s.slot d k) ∈ m := by
  rw [← Finmap.lookup_isSome, (h.lookup_iff _ _).mpr ⟨k, hk, hu, rfl, rfl⟩]
  rfl

lemma lookup_found (hk : k < n) (hf : Found (s.slot d k) name) :
    m.lookup name.val = some (entrySector (s.slot d k)) :=
  (h.lookup_iff _ _).mpr ⟨k, hk, hf.1, hf.2.symm, rfl⟩

lemma card_keys : m.keys.card = ((Finset.range n).filter fun k => entryInUse (s.slot d k) = true).card := by
  rw [← Finset.card_image_of_injOn (f := fun k => entryName (s.slot d k))]
  · congr 1
    ext x
    simp only [Finmap.mem_keys, Finset.mem_image, Finset.mem_filter, Finset.mem_range]
    constructor
    · intro hx
      obtain ⟨sector, hsector⟩ := Option.isSome_iff_exists.mp (Finmap.lookup_isSome.mpr hx)
      obtain ⟨k, hk, hu, hname, -⟩ := (h.lookup_iff _ _).mp hsector
      exact ⟨k, ⟨hk, hu⟩, hname⟩
    · rintro ⟨k, ⟨hk, hu⟩, rfl⟩
      exact h.mem_of_inUse hk hu
  · intro k hk l hl hname
    simp only [Finset.coe_filter, Finset.mem_range, Set.mem_ofPred_eq] at hk hl
    exact h.distinct k hk.1 l hl.1 hk.2 hl.2 hname

lemma card_lt_iff : m.keys.card < n ↔ ∃ k < n, entryInUse (s.slot d k) = false := by
  rw [h.card_keys]
  constructor
  · intro hlt
    by_contra hn
    simp only [not_exists, not_and, Bool.not_eq_false] at hn
    rw [Finset.filter_true_of_mem (by simpa using hn), Finset.card_range] at hlt
    exact Nat.lt_irrefl n hlt
  · rintro ⟨k, hk, hfree⟩
    conv_rhs => rw [← Finset.card_range n]
    refine Finset.card_lt_card (Finset.filter_ssubset.mpr ⟨k, Finset.mem_range.mpr hk, ?_⟩)
    rw [hfree]
    exact Bool.false_ne_true

lemma insert {sector : Nat} (hk : k < n) (hfree : entryInUse (s.slot d k) = false)
    (habsent : ∀ l < n, ¬ Found (s.slot d l) name) (hfound : Found (t.slot d k) name)
    (hsector : entrySector (t.slot d k) = sector) (hothers : ∀ l, l ≠ k → t.slot d l = s.slot d l) :
    Represents t d n (m.insert name.val sector) where
  lookup_iff x y := by
    by_cases hx : x = name.val
    · subst hx
      rw [Finmap.lookup_insert, Option.some.injEq]
      constructor
      · rintro rfl
        exact ⟨k, hk, hfound.1, hfound.2.symm, hsector⟩
      · rintro ⟨l, hl, hu, hname, hy⟩
        by_cases hlk : l = k
        · rw [← hsector, ← hy, hlk]
        · rw [hothers l hlk] at hu hname
          exact (habsent l hl ⟨hu, hname.symm⟩).elim
    · rw [Finmap.lookup_insert_of_ne _ hx, h.lookup_iff]
      refine (slots_exists (P := fun e => entryInUse e = true ∧ entryName e = x ∧ entrySector e = y)
        (fun l _ => hothers l) (fun he => ?_) fun he => ?_).symm
      · cases hfree.symm.trans he.1
      · exact hx (he.2.1.symm.trans hfound.2.symm)
  distinct := h.distinct.entered hfound habsent hothers

lemma erase (hk : k < n) (hfound : Found (s.slot d k) name)
    (hfreed : entryInUse (t.slot d k) = false) (hothers : ∀ l < n, l ≠ k → t.slot d l = s.slot d l) :
    Represents t d n (m.erase name.val) where
  lookup_iff x y := by
    by_cases hx : x = name.val
    · subst hx
      rw [Finmap.lookup_erase]
      refine ⟨nofun, ?_⟩
      rintro ⟨l, hl, hu, hname, -⟩
      have hlk : l ≠ k := by
        rintro rfl
        cases hfreed.symm.trans hu
      rw [hothers l hl hlk] at hu hname
      exact (hlk (h.distinct l hl k hk hu hfound.1 (hname.trans hfound.2))).elim
    · rw [Finmap.lookup_erase_ne hx, h.lookup_iff]
      refine (slots_exists (P := fun e => entryInUse e = true ∧ entryName e = x ∧ entrySector e = y)
        hothers (fun he => ?_) fun he => ?_).symm
      · exact hx (he.2.1.symm.trans hfound.2.symm)
      · cases hfreed.symm.trans he.1
  distinct := by
    refine slots_distinct hothers entryName h.distinct fun hu => ?_
    cases hfreed.symm.trans hu

end Represents

variable {s t : Fs} {b b' : Books} {refs : List Nat} {d o : Obj} {n : Nat} {dir : Dir} {name : Name}

structure Lists (s : Fs) (b : Books) (d : Obj) (n : Nat) : Prop where
  valid : ∀ k < n, entryInUse (s.slot d k) = true → (entryName (s.slot d k)).length ≤ nameMax
  named : ∀ k < n, entryInUse (s.slot d k) = true → ∃ o ∈ b.files, o ≠ d ∧ o.sector = entrySector (s.slot d k)
  distinct : ∀ k < n, ∀ l < n, entryInUse (s.slot d k) = true → entryInUse (s.slot d l) = true →
    entrySector (s.slot d k) = entrySector (s.slot d l) → k = l
  gone : ∀ p j, s.inode p = some j → j.removed = true → ∀ k < n, entryInUse (s.slot d k) = true →
    entrySector (s.slot d k) ≠ j.sector
  apart : d ≠ b.root → ∀ k < n, entryInUse (s.slot d k) = true → Unnamed s b (entrySector (s.slot d k))

structure Directory (s : Fs) (b : Books) (refs : List Nat) (d : Obj) (n : Nat) : Prop where
  inv : Inv s b refs
  mem : d = b.root ∨ d ∈ b.files
  length : d.length = entrySize * n
  quiet : s.mallocs = []
  lists : Lists s b d n

def OpenDir (s : Fs) (d : Obj) (dir : Dir) : Prop :=
  ∃ i, s.inode dir.inode = some i ∧ i.sector = d.sector ∧ i.removed = false ∧ i.denyWriteCnt = 0

lemma Lists.step (h : Lists s b d n) (hslots : ∀ k < n, t.slot d k = s.slot d k) (hroot : b'.root = b.root)
    (hcontent : t.content b.root = s.content b.root)
    (hfiles : ∀ o ∈ b.files, (∃ k < n, entryInUse (s.slot d k) = true ∧ o.sector = entrySector (s.slot d k)) →
      o ∈ b'.files)
    (hgone : ∀ p j, t.inode p = some j → j.removed = true → ∀ k < n, entryInUse (s.slot d k) = true →
      entrySector (s.slot d k) ≠ j.sector) : Lists t b' d n where
  valid k hk := by
    rw [hslots k hk]
    exact h.valid k hk
  named k hk hu := by
    rw [hslots k hk] at hu ⊢
    obtain ⟨o, ho, hne, hs⟩ := h.named k hk hu
    exact ⟨o, hfiles o ho ⟨k, hk, hu, hs⟩, hne, hs⟩
  distinct k hk l hl := by
    rw [hslots k hk, hslots l hl]
    exact h.distinct k hk l hl
  gone p j hj hr k hk := by
    rw [hslots k hk]
    exact hgone p j hj hr k hk
  apart hne k hk hu l hl := by
    rw [hslots k hk] at hu ⊢
    rw [hroot] at hne ⊢
    rw [slot_congr hcontent hl]
    exact h.apart hne k hk hu l hl

lemma Lists.replace (h : Lists s b d n) {k : Nat} (hinode : t.inode = s.inode)
    (hother : ∀ l < n, l ≠ k → t.slot d l = s.slot d l)
    (hroot : d ≠ b.root → t.content b.root = s.content b.root)
    (hself : entryInUse (t.slot d k) = true → (entryName (t.slot d k)).length ≤ nameMax ∧
      (∃ o ∈ b.files, o ≠ d ∧ o.sector = entrySector (t.slot d k)) ∧
      (∀ l < n, l ≠ k → entryInUse (s.slot d l) = true → entrySector (s.slot d l) ≠ entrySector (t.slot d k)) ∧
      (∀ p j, s.inode p = some j → entrySector (t.slot d k) ≠ j.sector) ∧
      (d ≠ b.root → Unnamed s b (entrySector (t.slot d k)))) : Lists t b d n where
  valid := slots_forall (P := fun e => (entryName e).length ≤ nameMax) hother h.valid fun hu => (hself hu).1
  named := slots_forall (P := fun e => ∃ o ∈ b.files, o ≠ d ∧ o.sector = entrySector e) hother h.named
    fun hu => (hself hu).2.1
  distinct := slots_distinct hother entrySector h.distinct fun hu => (hself hu).2.2.1
  gone p j hj hr := by
    rw [hinode] at hj
    exact slots_forall (P := fun e => entrySector e ≠ j.sector) hother (h.gone p j hj hr)
      fun hu => (hself hu).2.2.2.1 p j hj
  apart hne := slots_forall (P := fun e => Unnamed t b (entrySector e)) hother
    (fun l hl hu => (h.apart hne l hl hu).congr (hroot hne)) fun hu => ((hself hu).2.2.2.2 hne).congr (hroot hne)

namespace Directory

variable (h : Directory s b refs d n)

include h

lemma mem_objs : d ∈ b.objs := by
  rcases h.mem with rfl | hd
  · exact b.root_mem
  · exact Books.file_mem hd

lemma placed : d.start + d.cnt ≤ s.sectors := h.inv.sound.placed d h.mem_objs

variable {e : List Byte} {k : Nat}

lemma slot_le (hk : k < n) : entrySize * k + entrySize ≤ d.length := by
  rw [h.length, entrySize]
  omega

lemma slot_of_content (hc : t.content d = s.content d) (hk : k < n) : t.slot d k = s.slot d k := by
  rw [slot_eq t (h.slot_le hk), slot_eq s (h.slot_le hk), hc]

lemma root_size (hr : d = b.root) : n = rootEntries := by
  have hl := h.length
  rw [hr, b.root_length, entrySize] at hl
  rw [rootEntries]
  omega

lemma content_of_steady (hst : Steady s t b) : t.content d = s.content d := by
  rcases h.mem with rfl | hd
  · exact hst.root
  · exact hst.files d hd

lemma data (ho : OpenDir s d dir) :
    ∃ i, s.inode dir.inode = some i ∧ i.data = d.data ∧ i.denyWriteCnt = 0 := by
  obtain ⟨i, hi, hs, -, hw⟩ := ho
  obtain ⟨o, hmem, hos, hd⟩ := h.inv.table.backed _ _ hi
  obtain rfl : o = d := eq_of_sector h.inv.sound.exclusive hmem h.mem_objs (hos.trans hs)
  exact ⟨i, hi, hd.symm, hw⟩

lemma spend_eq (c : Nat) : s.spend c = s := by
  rw [Fs.spend, h.quiet, List.drop_nil, ← h.quiet]

lemma with_books (hinv : Inv t b' refs) (hst : Steady s t b) (hroot : b'.root = b.root)
    (hfiles : b.files ⊆ b'.files) (hinode : t.inode = s.inode) : Directory t b' refs d n where
  inv := hinv
  mem := h.mem.imp (fun he => he.trans hroot.symm) fun hd => hfiles hd
  length := h.length
  quiet := hst.quiet h.quiet
  lists := h.lists.step (fun _ hk => h.slot_of_content (h.content_of_steady hst) hk) hroot hst.root
    (fun _ ho _ => hfiles ho) fun p j hj hr => h.lists.gone p j (hinode ▸ hj) hr

lemma content_withSlot (hk : k < n)
    (he : e.length = entrySize) (ms : List Bool) (ho : o ∈ b.objs) (hne : o ≠ d) :
    (s.withSlot d k e ms).content o = s.content o := by
  have hc : s.disk.Confined 512 (s.withSlot d k e ms).disk (· ∈ d.extent) :=
    confined_write s.disk (by rw [he]; exact h.slot_le hk)
  apply Fs.content_eq_of_confined hc
  exact fun x hx => extent_disjoint h.inv.sound.exclusive ho h.mem_objs hne hx

lemma withSlot (hk : k < n) (he : e.length = entrySize)
    (hroot : d = b.root → Names (s.withSlot d k e []) b) : Inv (s.withSlot d k e []) b refs := by
  have hx := h.inv.sound.exclusive
  have hc : s.disk.Confined 512 (s.withSlot d k e []).disk (· ∈ d.extent) :=
    confined_write s.disk (by rw [he]; exact h.slot_le hk)
  apply h.inv.step (.with_map s s.freeMap _ []) rfl hc (fun o ho => sector_notMem_extent hx h.mem_objs ho)
    (fun _ _ => id)
  by_cases hd : d = b.root
  · exact hroot hd
  · exact h.inv.names.congr (h.content_withSlot hk he [] b.root_mem (Ne.symm hd)) fun p i hi hr => ⟨i, hi, hr, rfl⟩

lemma enters (hk : k < n) (he : e.length = entrySize)
    (hv : nameValid name = true) (ho : o ∈ b.files) (hod : o ≠ d) (hu : Unnamed s b o.sector)
    (hl : ∀ l < n, entryInUse (s.slot d l) = true → entrySector (s.slot d l) ≠ o.sector)
    (hc : ∀ p j, s.inode p = some j → o.sector ≠ j.sector) :
    Directory (s.withSlot d k (Entry.fill e name o.sector) []) b refs d n ∧
      entrySector ((s.withSlot d k (Entry.fill e name o.sector) []).slot d k) = o.sector := by
  have hname := (nameValid_iff.mp hv).2
  have hlen := length_fill he hname o.sector
  have hlt : o.sector < 4294967296 := by
    have := (h.inv.sound.used _ (sector_mem_owned (Books.file_mem ho))).1
    have := s.sectors_lt
    omega
  have hself := slot_withSlot_self s d k hlen []
  have hother : ∀ l, l ≠ k → (s.withSlot d k (Entry.fill e name o.sector) []).slot d l = s.slot d l :=
    fun l hlk => slot_withSlot_of_ne s d hlk hlen []
  have hsector : entrySector ((s.withSlot d k (Entry.fill e name o.sector) []).slot d k) = o.sector := by
    rw [hself, entrySector_fill e name hlt]
  have hfound : Found ((s.withSlot d k (Entry.fill e name o.sector) []).slot d k) name := by
    rw [hself]
    exact ⟨entryInUse_fill he hname _, (entryName_fill e name _).symm⟩
  refine ⟨⟨h.withSlot hk hlen fun hd => ?_, h.mem, h.length, rfl, ?_⟩, hsector⟩
  · have hn := h.root_size hd
    subst hd
    exact h.inv.names.enters ho ⟨hn ▸ hk, hfound, hsector, fun l _ => hother l⟩ rfl hu hc
  · refine h.lists.replace (k := k) rfl (fun l _ => hother l)
      (fun hne => h.content_withSlot hk hlen [] b.root_mem (Ne.symm hne)) fun _ => ?_
    rw [hsector, ← hfound.2]
    exact ⟨hname, ⟨o, ho, hod, rfl⟩, fun l hl' _ => hl l hl', hc, fun _ => hu⟩

lemma leaves (hk : k < n) (hf : Found (s.slot d k) name) :
    Directory (s.withSlot d k (Entry.erase (s.slot d k)) []) b refs d n ∧
      Unnamed (s.withSlot d k (Entry.erase (s.slot d k)) []) b (entrySector (s.slot d k)) ∧
      entryInUse ((s.withSlot d k (Entry.erase (s.slot d k)) []).slot d k) = false ∧
      ∀ l, l ≠ k → (s.withSlot d k (Entry.erase (s.slot d k)) []).slot d l = s.slot d l := by
  have hlen : (Entry.erase (s.slot d k)).length = entrySize := length_erase.trans (length_slot s d k)
  have hfreed : entryInUse ((s.withSlot d k (Entry.erase (s.slot d k)) []).slot d k) = false := by
    rw [slot_withSlot_self s d k hlen, entryInUse_erase (length_slot s d k)]
  have hother : ∀ l, l ≠ k → (s.withSlot d k (Entry.erase (s.slot d k)) []).slot d l = s.slot d l :=
    fun l hlk => slot_withSlot_of_ne s d hlk hlen []
  have hcontent : d ≠ b.root → (s.withSlot d k (Entry.erase (s.slot d k)) []).content b.root = s.content b.root :=
    fun hne => h.content_withSlot hk hlen [] b.root_mem (Ne.symm hne)
  have hleaves : d = b.root → Leaves s (s.withSlot d k (Entry.erase (s.slot d k)) []) b.root name k := by
    intro hd
    have hn := h.root_size hd
    subst hd
    exact ⟨hn ▸ hk, hf, hfreed, fun l _ => hother l⟩
  refine ⟨⟨h.withSlot hk hlen fun hd => h.inv.names.leaves (hleaves hd) rfl, h.mem, h.length, rfl, ?_⟩, ?_,
    hfreed, hother⟩
  · refine h.lists.replace (k := k) rfl (fun l _ => hother l) hcontent fun hu => ?_
    cases hfreed.symm.trans hu
  · by_cases hd : d = b.root
    · have hun := h.inv.names.unnamed_of_leaves (hleaves hd)
      rwa [← hd] at hun
    · exact (h.lists.apart hd k hk hf.1).congr (hcontent hd)

end Directory

end Pintos.Filesys
