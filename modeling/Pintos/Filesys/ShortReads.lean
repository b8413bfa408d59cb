import Pintos.Filesys.Runs

/-! What adding a name keeps of a directory of any size when bounce buffers are refused. -/

namespace Pintos.Filesys

open Pintos.Foundation Pintos.Kernel

variable {name : Name}

def DistinctNames (s : Fs) (d : Obj) (n : Nat) : Prop :=
  ∀ k < n, ∀ l < n, entryInUse (s.slot d k) = true → entryInUse (s.slot d l) = true →
    entryName (s.slot d k) = entryName (s.slot d l) → k = l

lemma DistinctNames.entered {s t : Fs} {d : Obj} {n k : Nat} (h : DistinctNames s d n)
    (hfound : Found (t.slot d k) name) (habsent : ∀ l < n, ¬ Found (s.slot d l) name)
    (hothers : ∀ l, l ≠ k → t.slot d l = s.slot d l) : DistinctNames t d n :=
  slots_distinct (fun l _ => hothers l) entryName h fun _ l hl _ hu he => habsent l hl ⟨hu, hfound.2.trans he.symm⟩

structure AddKeeps (s t : Fs) (d : Obj) (n : Nat) (name : Name) (ok : Bool) : Prop where
  entered : ok = true → ∃ k < n, entryInUse (s.slot d k) = false ∧ Found (t.slot d k) name ∧
    ∀ a, a < d.base + entrySize * k ∨ d.base + entrySize * k + entrySize ≤ a → t.disk a = s.disk a
  distinct : ok = true → DistinctNames t d n
  refused : ok = false → ∀ k < n, entryInUse (s.slot d k) = true → t.slot d k = s.slot d k

def Misplaces (s : Fs) (d : Obj) (n : Nat) (i : Inode) (name : Name) : Prop :=
  ∃ k, AddsAt s d n i name k ∧ (entryInUse (s.slot d k) = true ∨ ∃ l < n, Found (s.slot d l) name)

lemma AddsAt.placed {s : Fs} {d : Obj} {n : Nat} {i : Inode} {k : Nat} {e : List Byte}
    (h : AddsAt s d n i name k) (sector : Nat) (he : e.length = entrySize) (ms : List Bool) :
    Found ((s.withSlot d k (Entry.fill e name sector) ms).slot d k) name ∧
      ∀ l, l ≠ k → (s.withSlot d k (Entry.fill e name sector) ms).slot d l = s.slot d l := by
  have hname := (nameValid_iff.mp h.1).2
  have hlen := length_fill he hname sector
  refine ⟨?_, fun l hl => slot_withSlot_of_ne s d hl hlen ms⟩
  rw [slot_withSlot_self s d k hlen]
  exact ⟨entryInUse_fill he hname sector, (entryName_fill e name sector).symm⟩

theorem dir_add_keeps_entries {d : Obj} {n : Nat} {dir : Dir} {i : Inode} {s : Fs} (hd : i.data = d.data)
    (hl : d.length = entrySize * n) (hp : d.start + d.cnt ≤ s.sectors) (hi : s.inode dir.inode = some i)
    (hnames : DistinctNames s d n) (name : Name) (sector : Nat) :
    ∃ ok t, dirAdd s dir name sector = .ok (ok, t) ∧
      (AddKeeps s t d n name ok ↔ ¬ Misplaces s d n i name) := by
  obtain ⟨ok, t, hrun, hrefused, hadded⟩ := dirAdd_spend hd hl hp hi name sector
  refine ⟨ok, t, hrun, ?_⟩
  cases ok with
  | false =>
    obtain ⟨⟨c, rfl⟩, hnone⟩ := hrefused rfl
    exact iff_of_true ⟨nofun, nofun, fun _ _ _ _ => rfl⟩ fun ⟨k, hk, _⟩ => hnone k hk
  | true =>
    obtain ⟨k, e, c, hat, he, rfl⟩ := hadded rfl
    obtain ⟨hfound, hothers⟩ := hat.placed sector he (s.mallocs.drop c)
    have hkn := hat.lt
    constructor
    · rintro ⟨hent, hdist, -⟩ ⟨k', hat', hbad⟩
      obtain rfl := hat.unique hat'
      obtain ⟨k', -, hfree, hfound', -⟩ := hent rfl
      -- no other slot has changed, so the free slot that has the name now is the one written
      obtain rfl : k' = k := by
        by_contra hne
        rw [hothers k' hne] at hfound'
        cases hfree.symm.trans hfound'.1
      rcases hbad with hu | ⟨l, hln, hfl⟩
      · cases hfree.symm.trans hu
      · have hlk : l ≠ k' := by
          rintro rfl
          cases hfree.symm.trans hfl.1
        refine hlk (hdist rfl l hln k' hkn ?_ hfound.1 ?_)
        · rw [hothers l hlk]
          exact hfl.1
        · rw [hothers l hlk, ← hfl.2, ← hfound.2]
    · intro hgood
      have hfree : entryInUse (s.slot d k) = false := by
        by_contra hu
        exact hgood ⟨k, hat, .inl (eq_true_of_ne_false hu)⟩
      have habsent : ∀ l < n, ¬ Found (s.slot d l) name := fun l hln hfl => hgood ⟨k, hat, .inr ⟨l, hln, hfl⟩⟩
      refine ⟨fun _ => ⟨k, hkn, hfree, hfound, fun a ha => ?_⟩, fun _ => ?_, nofun⟩
      · apply Memory.write_of_notMem
        rw [length_fill he (nameValid_iff.mp hat.1).2 sector]
        exact ha
      · exact hnames.entered hfound habsent hothers

lemma not_misplaces_of_quiet {s : Fs} {d : Obj} {n : Nat} {i : Inode} (hq : s.mallocs = []) :
    ¬ Misplaces s d n i name := by
  rintro ⟨k, hat, hu | ⟨l, hl, hf⟩⟩
  · cases (hat.of_quiet hq).1.symm.trans hu
  · exact (hat.of_quiet hq).2 l hl hf

instance (s : Fs) (d : Obj) (n : Nat) : Decidable (DistinctNames s d n) :=
  inferInstanceAs (Decidable (∀ k < n, ∀ l < n, _ → _ → _ → _))

def smallRoot : Obj := ⟨rootDirSector, 3, 320, by decide⟩

def openedRoot (ms : List Bool) : Option (Fs × Dir × Inode) := do
  let m ← smallRun [.create nameA .zero]
  match dirOpenRoot m.fs with
  | .ok (some dir, s) => (s.inode dir.inode).map fun i => ({ s with mallocs := ms }, dir, i)
  | _ => none

theorem dir_add_keeps_entries_small : ∃ (s : Fs) (dir : Dir) (i : Inode) (ok : Bool) (t : Fs),
    i.data = smallRoot.data ∧ smallRoot.start + smallRoot.cnt ≤ s.sectors ∧ s.inode dir.inode = some i ∧
    DistinctNames s smallRoot 16 ∧ dirAdd s dir nameB 4 = .ok (ok, t) ∧ AddKeeps s t smallRoot 16 nameB ok := by
  have hcheck : ((openedRoot []).map fun (s, dir, i) =>
      decide (i.data = smallRoot.data ∧ smallRoot.start + smallRoot.cnt ≤ s.sectors ∧
        s.inode dir.inode = some i ∧ DistinctNames s smallRoot 16 ∧ s.mallocs = [])) = some true := by
    decide +kernel
  obtain ⟨⟨s, dir, i⟩, -, h⟩ := Option.map_eq_some_iff.mp hcheck
  obtain ⟨hd, hp, hi, hnames, hq⟩ := of_decide_eq_true h
  obtain ⟨ok, t, hrun, hiff⟩ := dir_add_keeps_entries hd rfl hp hi hnames nameB 4
  exact ⟨s, dir, i, ok, t, hd, hp, hi, hnames, hrun, hiff.mpr (not_misplaces_of_quiet hq)⟩

theorem dir_add_duplicates_name : ∃ (s : Fs) (dir : Dir) (i : Inode) (t : Fs),
    i.data = smallRoot.data ∧ smallRoot.start + smallRoot.cnt ≤ s.sectors ∧ s.inode dir.inode = some i ∧
    DistinctNames s smallRoot 16 ∧ dirAdd s dir nameA 4 = .ok (true, t) ∧ ¬ DistinctNames t smallRoot 16 := by
  have hcheck : ((openedRoot [false]).map fun x =>
      decide (x.2.2.data = smallRoot.data ∧ smallRoot.start + smallRoot.cnt ≤ x.1.sectors ∧
        x.1.inode x.2.1.inode = some x.2.2 ∧ DistinctNames x.1 smallRoot 16) &&
      (dirAdd x.1 x.2.1 nameA 4).toOption.any
        fun y => y.1 && !decide (DistinctNames y.2 smallRoot 16)) = some true := by
    decide +kernel
  obtain ⟨⟨s, dir, i⟩, -, h⟩ := Option.map_eq_some_iff.mp hcheck
  simp only [Bool.and_eq_true, decide_eq_true_eq] at h
  obtain ⟨⟨hd, hp, hi, hnames⟩, hadd⟩ := h
  obtain ⟨⟨ok, t⟩, hrun, ht⟩ := exists_of_any hadd
  simp only [Bool.and_eq_true, Bool.not_eq_true', decide_eq_false_iff_not] at ht
  exact ⟨s, dir, i, t, hd, hp, hi, hnames, ht.1 ▸ hrun, ht.2⟩

end Pintos.Filesys
