import Pintos.Filesys.Allocation
import Pintos.Foundation.Owners

/-! Which sectors the objects on the device own, and which writes leave the others alone. -/

namespace Pintos.Filesys

open Pintos.Foundation Pintos.Kernel

variable {o : Obj} {objs : List Obj} {x : Nat}

lemma length_toBytes (d : InodeDisk) : d.toBytes.length = 512 := by
  rw [InodeDisk.toBytes, List.length_append, List.length_append, List.length_append, length_word,
    length_word, length_word, List.length_replicate]

namespace Obj

def extent (o : Obj) : List Nat := List.range' o.start o.cnt

def sectors (o : Obj) : List Nat := o.sector :: o.extent

lemma mem_extent : x ∈ o.extent ↔ o.start ≤ x ∧ x < o.start + o.cnt := by
  rw [extent, List.mem_range'_1]

lemma mem_sectors : x ∈ o.sectors ↔ x = o.sector ∨ x ∈ o.extent := List.mem_cons

lemma div_mem_extent {a : Nat} (h : o.base ≤ a) (h' : a < o.base + o.length) :
    a / 512 ∈ o.extent := by
  have hl := o.length_le
  rw [base, blockSectorSize] at h h'
  rw [blockSectorSize] at hl
  rw [mem_extent]
  omega

lemma ofBytes_toBytes (o : Obj) (hs : o.start < 4294967296) :
    InodeDisk.ofBytes o.data.toBytes = o.data := by
  have hl := o.length_lt
  have he : ofInt32 o.length = o.length := ofInt32_natCast (by omega)
  simp only [InodeDisk.toBytes, InodeDisk.ofBytes, data, he, List.append_assoc]
  rw [wordOf_word_append hs, List.drop_left' (length_word _),
    wordOf_word_append (show o.length < 4294967296 by omega)]
  rw [← List.append_assoc (word o.start), List.drop_left' (by simp),
    wordOf_word_append (by decide), toInt32_of_lt hl]

end Obj

def owned (objs : List Obj) : List Nat := objs.flatMap Obj.sectors

structure Sound (s : Fs) (objs : List Obj) : Prop where
  exclusive : Exclusive Obj.sectors objs
  used : ∀ x ∈ owned objs, x < s.sectors ∧ s.freeMap.bit x = true
  placed : ∀ o ∈ objs, o.start + o.cnt ≤ s.sectors
  onDisk : ∀ o ∈ objs, InodeDisk.ofBytes (s.disk.read (512 * o.sector) 512) = o.data

lemma mem_owned : x ∈ owned objs ↔ ∃ o ∈ objs, x ∈ o.sectors :=
  List.mem_flatMap

lemma sector_mem_owned (h : o ∈ objs) : o.sector ∈ owned objs :=
  mem_owned.mpr ⟨o, h, List.mem_cons_self⟩

lemma extent_subset_owned (h : o ∈ objs) : ∀ x ∈ o.extent, x ∈ owned objs :=
  fun _ hx => mem_owned.mpr ⟨o, h, List.mem_cons_of_mem _ hx⟩

section Exclusive

variable {o' : Obj} (h : Exclusive Obj.sectors objs) (ho : o ∈ objs) (ho' : o' ∈ objs)

include h ho ho'

lemma eq_of_sector (he : o.sector = o'.sector) : o = o' :=
  h.eq_of_mem ho ho' (x := o.sector) List.mem_cons_self (he ▸ List.mem_cons_self)

lemma sector_notMem_extent : o'.sector ∉ o.extent := by
  intro hx
  have he : o = o' := h.eq_of_mem ho ho' (List.mem_cons_of_mem _ hx) List.mem_cons_self
  subst he
  exact (List.nodup_cons.mp (h.holds ho)).1 hx

lemma extent_disjoint (hne : o ≠ o') (hx : x ∈ o.extent) : x ∉ o'.extent :=
  fun hx' => hne (h.eq_of_mem ho ho' (List.mem_cons_of_mem _ hx) (List.mem_cons_of_mem _ hx'))

end Exclusive

lemma Fs.content_eq_of_confined {s t : Fs} {P : Nat → Prop} (hd : s.disk.Confined 512 t.disk P)
    (ho : ∀ x ∈ o.extent, ¬ P x) : t.content o = s.content o :=
  hd.read_eq fun _ hx hx' => ho _ (Obj.div_mem_extent hx hx')

lemma confined_write (m : Memory) {k : Nat} {bs : List Byte} (h : k + bs.length ≤ o.length) :
    m.Confined 512 (m.write (o.base + k) bs) (· ∈ o.extent) :=
  .of_write fun _ ha ha' => Obj.div_mem_extent (by omega) (by omega)

lemma confined_placeInode (m : Memory) (o : Obj) :
    m.Confined 512 (placeInode m o.sector o.start o.length) (· ∈ o.sectors) := by
  have hinode : m.Confined 512 (m.write (512 * o.sector) o.data.toBytes) (· ∈ o.sectors) := by
    apply Memory.Confined.of_write
    intro a ha ha'
    rw [length_toBytes] at ha'
    exact Obj.mem_sectors.mpr (.inl (by omega))
  apply hinode.trans
  apply Memory.Confined.of_write
  intro a ha ha'
  rw [List.length_replicate] at ha'
  refine Obj.mem_sectors.mpr (.inr (Obj.mem_extent.mpr ?_))
  rw [Obj.cnt]
  omega

namespace Sound

variable {s t : Fs}

lemma mono (h : Sound s objs) {objs' : List Obj} (hs : objs'.Sublist objs) : Sound s objs' where
  exclusive := h.exclusive.sublist hs
  used x hx := by
    obtain ⟨o, ho, hxo⟩ := mem_owned.mp hx
    exact h.used x (mem_owned.mpr ⟨o, hs.subset ho, hxo⟩)
  placed o ho := h.placed o (hs.subset ho)
  onDisk o ho := h.onDisk o (hs.subset ho)

lemma perm (h : Sound s objs) {objs' : List Obj} (hp : objs.Perm objs') : Sound s objs' where
  exclusive := (hp.flatMap_right Obj.sectors).nodup_iff.mp h.exclusive
  used x hx := h.used x ((hp.flatMap_right Obj.sectors).mem_iff.mpr hx)
  placed o ho := h.placed o (hp.mem_iff.mpr ho)
  onDisk o ho := h.onDisk o (hp.mem_iff.mpr ho)

lemma step (h : Sound s objs) (hs : t.sectors = s.sectors) {P : Nat → Prop}
    (hd : s.disk.Confined 512 t.disk P) (hp : ∀ o ∈ objs, ¬ P o.sector)
    (hb : ∀ x ∈ owned objs, s.freeMap.bit x = true → t.freeMap.bit x = true) : Sound t objs where
  exclusive := h.exclusive
  used x hx := ⟨hs ▸ (h.used x hx).1, hb x hx (h.used x hx).2⟩
  placed o ho := hs ▸ h.placed o ho
  onDisk o ho := by
    have hr : t.disk.read (512 * o.sector) 512 = s.disk.read (512 * o.sector) 512 := by
      apply hd.read_eq
      intro x hx hx'
      rw [show x / 512 = o.sector by omega]
      exact hp o ho
    rw [hr]
    exact h.onDisk o ho

lemma congr (h : Sound s objs) (hs : t.sectors = s.sectors) (hd : t.disk = s.disk)
    (hf : t.freeMap = s.freeMap) : Sound t objs := by
  refine h.step hs (P := fun _ => False) (hd ▸ .refl _ _ _) (fun _ _ => id) ?_
  rw [hf]
  exact fun _ _ => id

lemma add (h : Sound s objs) (hp : o.start + o.cnt ≤ s.sectors) (hn : o.sectors.Nodup)
    (ho : ∀ x ∈ o.sectors, x ∉ owned objs ∧ x < s.sectors ∧ s.freeMap.bit x = true)
    (hd : InodeDisk.ofBytes (s.disk.read (512 * o.sector) 512) = o.data) : Sound s (o :: objs) where
  exclusive := h.exclusive.cons hn fun x hx => (ho x hx).1
  used x hx := by
    rw [owned, List.flatMap_cons, List.mem_append] at hx
    exact hx.elim (fun hx => (ho x hx).2) (h.used x)
  placed := by
    simp only [List.mem_cons, forall_eq_or_imp]
    exact ⟨hp, h.placed⟩
  onDisk := by
    simp only [List.mem_cons, forall_eq_or_imp]
    exact ⟨hd, h.onDisk⟩

end Sound

end Pintos.Filesys
