import Pintos.Filesys.Ownership

/-! The table of open inodes: one inode for each open sector, counted by those who hold it. -/

namespace Pintos.Filesys

open Pintos.Foundation Pintos.Kernel

variable {sector : Nat}

namespace Fs

variable (s : Fs) (p : Nat) (i : Option Inode) (f : Nat) (x : Option File)

lemma setInode_inode (q : Nat) : (s.setInode p i).inode q = if q = p then i else s.inode q := rfl

@[simp] lemma setInode_inode_self : (s.setInode p i).inode p = i := if_pos rfl

lemma setInode_inode_of_ne {q : Nat} (h : q ≠ p) : (s.setInode p i).inode q = s.inode q := if_neg h

variable {s p i} in
lemma setInode_eq_some {q : Nat} {j : Inode} (h : (s.setInode p i).inode q = some j) :
    q = p ∧ i = some j ∨ q ≠ p ∧ s.inode q = some j := by
  rw [setInode_inode] at h
  split at h
  · next hq => exact .inl ⟨hq, h⟩
  · next hq => exact .inr ⟨hq, h⟩

lemma setFile_file (g : Nat) : (s.setFile f x).file g = if g = f then x else s.file g := rfl

end Fs

structure Refs (s : Fs) (refs : List Nat) : Prop where
  nodup : s.openInodes.Nodup
  listed : ∀ p, p ∈ s.openInodes ↔ s.inode p ≠ none
  fresh : ∀ p, s.next ≤ p → s.inode p = none ∧ s.file p = none
  counted : ∀ p i, s.inode p = some i → i.openCnt = refs.count p ∧ 0 < refs.count p
  inj : ∀ p q i j, s.inode p = some i → s.inode q = some j → i.sector = j.sector → p = q
  live : ∀ p ∈ refs, s.inode p ≠ none

namespace Refs

variable {s t : Fs} {refs refs' : List Nat} {p : Nat} {i : Inode} (h : Refs s refs)

include h

lemma perm (hp : refs.Perm refs') : Refs s refs' :=
  { h with
    counted := fun p i hi => by
      rw [← hp.count_eq]
      exact h.counted p i hi
    live := fun p hm => h.live p (hp.mem_iff.mpr hm) }

lemma congr (ho : t.openInodes = s.openInodes) (hi : t.inode = s.inode)
    (hf : t.file = s.file) (hn : t.next = s.next) : Refs t refs := by
  refine ⟨ho ▸ h.nodup, ?_, ?_, ?_, ?_, ?_⟩
  · rw [ho, hi]
    exact h.listed
  · rw [hi, hf, hn]
    exact h.fresh
  · rw [hi]
    exact h.counted
  · rw [hi]
    exact h.inj
  · rw [hi]
    exact h.live

section

variable (hi : s.inode p = some i)

include hi

lemma lt_next : p < s.next := by
  by_contra hn
  have hnone := (h.fresh p (by omega)).1
  simp [hnone] at hi

lemma set (i' : Inode) (hs : i'.sector = i.sector) (hc : i'.openCnt = refs'.count p) (hpos : 0 < refs'.count p)
    (hother : ∀ q, q ≠ p → refs'.count q = refs.count q) : Refs (s.setInode p (some i')) refs' := by
  refine ⟨h.nodup, fun q => ?_, fun q hq => ?_, fun q j hj => ?_, fun q r j k hj hk he => ?_,
    fun q hq => ?_⟩
  · rw [Fs.setInode_openInodes, h.listed, Fs.setInode_inode]
    split
    · next he => simp [he, hi]
    · rfl
  · have hlt := h.lt_next hi
    have hne : q ≠ p := by
      rw [Fs.setInode_next] at hq
      omega
    rw [Fs.setInode_inode_of_ne _ _ _ hne]
    exact h.fresh q hq
  · rcases Fs.setInode_eq_some hj with ⟨rfl, ⟨⟩⟩ | ⟨hq, hj⟩
    · exact ⟨hc, hpos⟩
    · rw [hother q hq]
      exact h.counted q j hj
  · rcases Fs.setInode_eq_some hj with ⟨rfl, ⟨⟩⟩ | ⟨_, hj'⟩ <;>
      rcases Fs.setInode_eq_some hk with ⟨rfl, ⟨⟩⟩ | ⟨_, hk'⟩
    · rfl
    · exact h.inj q r i k hi hk' (hs ▸ he)
    · exact h.inj q r j i hj' hi (hs ▸ he)
    · exact h.inj q r j k hj' hk' he
  · by_cases hqp : q = p
    · simp [hqp]
    · rw [Fs.setInode_inode_of_ne _ _ _ hqp]
      apply h.live
      rw [← List.count_pos_iff, ← hother q hqp]
      exact List.count_pos_iff.mpr hq

lemma reopen : Refs (s.setInode p (some { i with openCnt := i.openCnt + 1 })) (p :: refs) := by
  have hc := (h.counted p i hi).1
  apply h.set hi { i with openCnt := i.openCnt + 1 } rfl
  · rw [List.count_cons_self, hc]
    rfl
  · rw [List.count_cons_self]
    omega
  · intro q hq
    rw [List.count_cons_of_ne (Ne.symm hq)]

lemma close_shared (hc : i.openCnt - 1 ≠ 0) :
    Refs (s.setInode p (some { i with openCnt := i.openCnt - 1 })) (refs.erase p) := by
  have hcount := (h.counted p i hi).1
  have hpos := (h.counted p i hi).2
  apply h.set hi { i with openCnt := i.openCnt - 1 } rfl
  · simp only [List.count_erase_self, hcount]
    omega
  · rw [List.count_erase_self]
    omega
  · intro q hq
    rw [List.count_erase_of_ne hq]

lemma close_last (hc : i.openCnt - 1 = 0) (ho : t.openInodes = s.openInodes.erase p)
    (hin : ∀ q, t.inode q = if q = p then none else s.inode q) (hf : t.file = s.file)
    (hn : t.next = s.next) : Refs t (refs.erase p) := by
  have hcount : refs.count p = 1 := by
    have := (h.counted p i hi).1
    omega
  have hsome : ∀ q j, t.inode q = some j → q ≠ p ∧ s.inode q = some j := by
    intro q j hj
    rwa [hin, Option.ite_none_left_eq_some] at hj
  refine ⟨ho ▸ h.nodup.erase p, fun q => ?_, fun q hq => ?_, fun q j hj => ?_, fun q r j k hj hk => ?_,
    fun q hq => ?_⟩
  · rw [ho, h.nodup.mem_erase_iff, h.listed, hin]
    by_cases hq : q = p <;> simp [hq]
  · rw [hn] at hq
    rw [hin, hf, (h.fresh q hq).1, ite_self]
    exact ⟨rfl, (h.fresh q hq).2⟩
  · obtain ⟨hq, hj⟩ := hsome q j hj
    rw [List.count_erase_of_ne hq]
    exact h.counted q j hj
  · exact h.inj q r j k (hsome q j hj).2 (hsome r k hk).2
  · have hne : q ≠ p := by
      rintro rfl
      have := List.count_pos_iff.mpr hq
      rw [List.count_erase_self] at this
      omega
    rw [hin, if_neg hne]
    exact h.live q (List.mem_of_mem_erase hq)

end

lemma open_fresh (hn : ∀ p j, s.inode p = some j → i.sector ≠ j.sector)
    (hl : t.openInodes = s.next :: s.openInodes)
    (hin : ∀ q, t.inode q = if q = s.next then some i else s.inode q) (hi : i.openCnt = 1)
    (hf : t.file = s.file) (hnext : t.next = s.next + 1) : Refs t (s.next :: refs) := by
  have hnone := (h.fresh s.next le_rfl).1
  have hnotin : s.next ∉ refs := fun hm => h.live _ hm hnone
  have hsome : ∀ q j, t.inode q = some j → (q = s.next ∧ j = i) ∨ (q ≠ s.next ∧ s.inode q = some j) := by
    intro q j hj
    rw [hin] at hj
    by_cases hq : q = s.next
    · rw [if_pos hq] at hj
      exact .inl ⟨hq, (Option.some.inj hj).symm⟩
    · exact .inr ⟨hq, by rwa [if_neg hq] at hj⟩
  refine ⟨?_, fun q => ?_, fun q hq => ?_, fun q j hj => ?_, fun q r j k hj hk he => ?_, fun q hq => ?_⟩
  · rw [hl, List.nodup_cons, h.listed]
    exact ⟨fun hne => hne hnone, h.nodup⟩
  · rw [hl, List.mem_cons, h.listed, hin]
    by_cases hq : q = s.next <;> simp [hq]
  · rw [hnext] at hq
    rw [hin, hf, if_neg (by omega)]
    exact h.fresh q (by omega)
  · rcases hsome q j hj with ⟨rfl, rfl⟩ | ⟨hq, hj⟩
    · rw [List.count_cons_self, List.count_eq_zero_of_not_mem hnotin, hi]
      exact ⟨rfl, Nat.zero_lt_one⟩
    · rw [List.count_cons_of_ne (Ne.symm hq)]
      exact h.counted q j hj
  · rcases hsome q j hj with ⟨rfl, rfl⟩ | ⟨_, hj'⟩ <;> rcases hsome r k hk with ⟨rfl, rfl⟩ | ⟨_, hk'⟩
    · rfl
    · exact (hn r k hk' he).elim
    · exact (hn q j hj' he.symm).elim
    · exact h.inj q r j k hj' hk' he
  · rw [hin]
    rcases List.mem_cons.mp hq with rfl | hm
    · simp
    · have hne : q ≠ s.next := by
        rintro rfl
        exact hnotin hm
      rw [if_neg hne]
      exact h.live q hm

lemma findOpen_some (hf : s.findOpen sector = some p) : ∃ i, s.inode p = some i ∧ i.sector = sector := by
  have hp := List.find?_some hf
  obtain ⟨i, hi⟩ := Option.ne_none_iff_exists'.mp ((h.listed p).mp (List.mem_of_find?_eq_some hf))
  exact ⟨i, hi, by simpa [hi] using hp⟩

lemma findOpen_none (hf : s.findOpen sector = none) : ∀ p i, s.inode p = some i → sector ≠ i.sector := by
  intro p i hi he
  have hn := List.find?_eq_none.mp hf p ((h.listed p).mpr (by simp [hi]))
  simp [hi, he] at hn

end Refs

structure Table (s : Fs) (objs : List Obj) (refs : List Nat) : Prop where
  nodup : s.openInodes.Nodup
  listed : ∀ p, p ∈ s.openInodes ↔ s.inode p ≠ none
  fresh : ∀ p, s.next ≤ p → s.inode p = none ∧ s.file p = none
  backed : ∀ p i, s.inode p = some i → ∃ o ∈ objs, o.sector = i.sector ∧ o.data = i.data
  counted : ∀ p i, s.inode p = some i → i.openCnt = refs.count p ∧ 0 < refs.count p
  writable : ∀ p i, s.inode p = some i → i.sector = freeMapSector ∨ i.sector = rootDirSector →
    i.denyWriteCnt = 0
  inj : ∀ p q i j, s.inode p = some i → s.inode q = some j → i.sector = j.sector → p = q
  live : ∀ p ∈ refs, s.inode p ≠ none

namespace Table

variable {s t : Fs} {objs objs' : List Obj} {refs refs' : List Nat} {p : Nat} {i : Inode} (h : Table s objs refs)

include h

lemma toRefs : Refs s refs :=
  ⟨h.nodup, h.listed, h.fresh, h.counted, h.inj, h.live⟩

omit h in
lemma of_refs (h : Refs s refs)
    (hb : ∀ p i, s.inode p = some i → ∃ o ∈ objs, o.sector = i.sector ∧ o.data = i.data)
    (hw : ∀ p i, s.inode p = some i → i.sector = freeMapSector ∨ i.sector = rootDirSector →
      i.denyWriteCnt = 0) : Table s objs refs :=
  ⟨h.nodup, h.listed, h.fresh, hb, h.counted, hw, h.inj, h.live⟩

lemma perm (hp : refs.Perm refs') : Table s objs refs' :=
  of_refs (h.toRefs.perm hp) h.backed h.writable

lemma congr (ho : t.openInodes = s.openInodes) (hi : t.inode = s.inode)
    (hf : t.file = s.file) (hn : t.next = s.next) : Table t objs refs :=
  of_refs (h.toRefs.congr ho hi hf hn) (hi ▸ h.backed) (hi ▸ h.writable)

lemma mono (hs : objs ⊆ objs') : Table s objs' refs :=
  { h with
    backed := fun p i hi => by
      obtain ⟨o, ho, hb⟩ := h.backed p i hi
      exact ⟨o, hs ho, hb⟩ }

lemma drop {o : Obj} (hn : ∀ p i, s.inode p = some i → o.sector ≠ i.sector) : Table s (objs.erase o) refs :=
  { h with
    backed := fun p i hi => by
      obtain ⟨o', ho', hb⟩ := h.backed p i hi
      refine ⟨o', (List.mem_erase_of_ne ?_).mpr ho', hb⟩
      rintro rfl
      exact hn p i hi hb.1 }

section

variable (hi : s.inode p = some i)

include hi

lemma mem_refs : p ∈ refs :=
  List.count_pos_iff.mp (h.counted p i hi).2

lemma lt_next : p < s.next := h.toRefs.lt_next hi

lemma reset {i' : Inode}
    (hr : Refs (s.setInode p (some i')) refs') (hs : i'.sector = i.sector) (hd : i'.data = i.data)
    (hw : i'.denyWriteCnt = i.denyWriteCnt ∨ i.sector ≠ freeMapSector ∧ i.sector ≠ rootDirSector) :
    Table (s.setInode p (some i')) objs refs' := by
  refine of_refs hr (fun q j hj => ?_) fun q j hj hj' => ?_
  · rcases Fs.setInode_eq_some hj with ⟨rfl, ⟨⟩⟩ | ⟨-, hj⟩
    · rw [hs, hd]
      exact h.backed q i hi
    · exact h.backed q j hj
  · rcases Fs.setInode_eq_some hj with ⟨rfl, ⟨⟩⟩ | ⟨-, hj⟩
    · rw [hs] at hj'
      rcases hw with hw | ⟨h0, h1⟩
      · exact hw.trans (h.writable q i hi hj')
      · exact (hj'.elim h0 h1).elim
    · exact h.writable q j hj hj'

lemma set (i' : Inode) (hs : i'.sector = i.sector) (hd : i'.data = i.data)
    (hw : i'.denyWriteCnt = i.denyWriteCnt ∨ i.sector ≠ freeMapSector ∧ i.sector ≠ rootDirSector)
    (hc : i'.openCnt = refs'.count p) (hpos : 0 < refs'.count p)
    (hother : ∀ q, q ≠ p → refs'.count q = refs.count q) : Table (s.setInode p (some i')) objs refs' :=
  h.reset hi (h.toRefs.set hi i' hs hc hpos hother) hs hd hw

lemma reopen : Table (s.setInode p (some { i with openCnt := i.openCnt + 1 })) objs (p :: refs) :=
  h.reset hi (h.toRefs.reopen hi) rfl rfl (.inl rfl)

lemma close_shared (hc : i.openCnt - 1 ≠ 0) :
    Table (s.setInode p (some { i with openCnt := i.openCnt - 1 })) objs (refs.erase p) :=
  h.reset hi (h.toRefs.close_shared hi hc) rfl rfl (.inl rfl)

lemma mark_removed : Table (s.setInode p (some { i with removed := true })) objs refs :=
  h.set hi { i with removed := true } rfl rfl (.inl rfl) (h.counted p i hi).1 (h.counted p i hi).2 fun _ _ => rfl

lemma close_last (hc : i.openCnt - 1 = 0) (ho : t.openInodes = s.openInodes.erase p)
    (hin : ∀ q, t.inode q = if q = p then none else s.inode q) (hf : t.file = s.file)
    (hn : t.next = s.next) : Table t objs (refs.erase p) := by
  have hsome : ∀ q j, t.inode q = some j → s.inode q = some j := by
    intro q j hj
    rw [hin, Option.ite_none_left_eq_some] at hj
    exact hj.2
  exact of_refs (h.toRefs.close_last hi hc ho hin hf hn) (fun q j hj => h.backed q j (hsome q j hj))
    fun q j hj => h.writable q j (hsome q j hj)

end

lemma open_fresh {o : Obj} (ho : o ∈ objs) (hn : ∀ p i, s.inode p = some i → o.sector ≠ i.sector)
    (hl : t.openInodes = s.next :: s.openInodes)
    (hin : ∀ q, t.inode q = if q = s.next then some i else s.inode q)
    (hi : i = { sector := o.sector, openCnt := 1, removed := false, denyWriteCnt := 0, data := o.data })
    (hf : t.file = s.file) (hnext : t.next = s.next + 1) : Table t objs (s.next :: refs) := by
  subst hi
  refine of_refs (h.toRefs.open_fresh hn hl hin rfl hf hnext) (fun q j hj => ?_) fun q j hj hj' => ?_
  · rw [hin] at hj
    split at hj
    · cases hj
      exact ⟨o, ho, rfl, rfl⟩
    · exact h.backed q j hj
  · rw [hin] at hj
    split at hj
    · cases hj
      rfl
    · exact h.writable q j hj hj'

lemma findOpen_some (hf : s.findOpen sector = some p) :
    ∃ i, s.inode p = some i ∧ i.sector = sector := h.toRefs.findOpen_some hf

lemma findOpen_none (hf : s.findOpen sector = none) :
    ∀ p i, s.inode p = some i → sector ≠ i.sector := h.toRefs.findOpen_none hf

end Table

end Pintos.Filesys
