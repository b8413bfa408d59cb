import Pintos.Filesys.Entries

/-! Scans of a directory under refused bounce buffers: a refused read looks like the end of the directory. -/

namespace Pintos.Filesys

open Pintos.Foundation Pintos.Kernel

variable {s : Fs} {i : Inode} {d : Obj} {n : Nat}

structure First (p : Nat → Prop) (k n j : Nat) : Prop where
  ge : k ≤ j
  le : j ≤ n
  meets : j < n → p j
  before : ∀ l, k ≤ l → l < j → ¬ p l

namespace First

variable {p : Nat → Prop} {k j : Nat}

lemma of_meets (hk : k < n) (hp : p k) : First p k n k :=
  ⟨le_rfl, hk.le, fun _ => hp, fun _ _ _ => by omega⟩

lemma of_end (p : Nat → Prop) (n : Nat) : First p n n n :=
  ⟨le_rfl, le_rfl, fun h => by omega, fun _ _ _ => by omega⟩

lemma succ (h : First p (k + 1) n j) (hp : ¬ p k) : First p k n j := by
  refine ⟨by have := h.ge; omega, h.le, h.meets, fun l hl hlj => ?_⟩
  by_cases hlk : l = k
  · rw [hlk]
    exact hp
  · exact h.before l (by omega) hlj

lemma unique {j' : Nat} (h : First p k n j) (h' : First p k n j') : j = j' := by
  rcases Nat.lt_trichotomy j j' with hlt | heq | hlt
  · exact (h'.before j h.ge hlt (h.meets (by have := h'.le; omega))).elim
  · exact heq
  · exact (h.before j' h'.ge hlt (h'.meets (by have := h.le; omega))).elim

lemma exists_of_meets (h : ∃ k < n, p k) : ∃ j < n, First p 0 n j := by
  classical
  obtain ⟨hlt, hp⟩ := Nat.find_spec h
  exact ⟨Nat.find h, hlt, Nat.zero_le _, hlt.le, fun _ => hp,
    fun l _ hl hpl => Nat.find_min h hl ⟨hl.trans hlt, hpl⟩⟩

lemma congr {q : Nat → Prop} (h : First p k n j) (hpq : ∀ l < n, p l ↔ q l) : First q k n j :=
  ⟨h.ge, h.le, fun hj => (hpq j hj).mp (h.meets hj),
    fun l hl hlj hq => h.before l hl hlj ((hpq l (by have := h.le; omega)).mpr hq)⟩

end First

/-- The answer to the call of `malloc` after `i` others. -/
def Fs.grants (s : Fs) (i : Nat) : Bool := s.mallocs.getD i true

def Fs.spend (s : Fs) (c : Nat) : Fs := { s with mallocs := s.mallocs.drop c }

lemma grants_of_quiet (hq : s.mallocs = []) (i : Nat) : s.grants i = true := by
  rw [Fs.grants, hq]
  rfl

lemma spend_quiet (hq : s.mallocs = []) (c : Nat) : (s.spend c).mallocs = [] := by
  rw [Fs.spend, hq, List.drop_nil]

lemma malloc_spend (s : Fs) (c : Nat) : malloc (s.spend c).mallocs = (s.grants c, (s.spend (c + 1)).mallocs) :=
  malloc_drop s.mallocs c

lemma entry_transfer {s : Fs} {c k m : Nat} {ms : List Bool}
    (ht : Transfers false (s.spend c).mallocs ms (entrySize * k) m entrySize) :
    m = (if s.grants c then entrySize else 0) ∧ ms = (s.spend (c + 1)).mallocs := by
  have hb : Bounced (entrySize * k) entrySize := by
    rw [Bounced, entrySize]
    omega
  refine ⟨?_, by rw [ht.popped rfl hb, malloc_spend]⟩
  cases hg : s.grants c with
  | true => exact ht.whole.mpr (.inr (.inr (by rw [malloc_spend, hg])))
  | false =>
    -- an entry is less than a sector, so that nothing has been moved before the refusal
    rw [ht.stopped (by rw [malloc_spend, hg])]
    exact ite_self 0

section Entries

variable {dir : Dir} (hd : i.data = d.data) (hl : d.length = entrySize * n)
  (hp : d.start + d.cnt ≤ s.sectors) (hi : s.inode dir.inode = some i)

include hd hl hi

variable {e : List Byte} {c k : Nat}

omit hd hl in
lemma dirWrite_denied (hw : i.denyWriteCnt ≠ 0) (ofs : Nat) :
    dirWrite (s.spend c) dir e ofs = .ok (false, s.spend c) := by
  rw [dirWrite, inodeWriteAt, inodeAt_eq (show (s.spend c).inode dir.inode = some i from hi), bind_ok, if_pos hw]
  rfl

include hp

lemma readEntry_end (hk : n ≤ k) : inodeReadAt s dir.inode entrySize (entrySize * k) = .ok ([], s) := by
  obtain ⟨m, ms, hrun, ht⟩ := inodeReadAt_eq hp hi hd entrySize (entrySize * k)
  have hspan : min (entrySize : Int).toNat (d.length - entrySize * k) = 0 := by
    rw [hl, entrySize]
    omega
  rw [hspan] at ht
  have hm : m = 0 := Nat.le_zero.mp ht.le
  have hms : ms = s.mallocs := ht.kept (.inr fun hb => hb.1 rfl)
  rw [hrun, hm, hms, Memory.read_zero]

lemma readEntry_spend (hk : k < n) :
    inodeReadAt (s.spend c) dir.inode entrySize (entrySize * k) =
      .ok (if s.grants c then s.slot d k else [], s.spend (c + 1)) := by
  have hspan : min (entrySize : Int).toNat (d.length - entrySize * k) = entrySize := by
    rw [hl, entrySize]
    omega
  obtain ⟨m, ms, hrun, ht⟩ := inodeReadAt_eq (s := s.spend c) hp hi hd entrySize (entrySize * k)
  rw [hspan] at ht
  obtain ⟨rfl, rfl⟩ := entry_transfer ht
  rw [hrun]
  cases s.grants c <;> rfl

lemma dirWrite_spend (hw : i.denyWriteCnt = 0) (he : e.length = entrySize) (hk : k < n) :
    dirWrite (s.spend c) dir e (entrySize * k) =
      .ok (s.grants c, if s.grants c then s.withSlot d k e (s.mallocs.drop (c + 1)) else s.spend (c + 1)) := by
  have hspan : min (min (entrySize : Int).toNat e.length) (d.length - entrySize * k) = entrySize := by
    rw [hl, he, entrySize]
    omega
  obtain ⟨m, ms, hrun, ht⟩ := inodeWriteAt_eq (s := s.spend c) hp hi hd hw e entrySize (entrySize * k)
  rw [hspan] at ht
  obtain ⟨rfl, rfl⟩ := entry_transfer ht
  rw [dirWrite, hrun, bind_ok]
  cases s.grants c with
  | true =>
    rw [if_pos rfl, List.take_of_length_le he.le]
    rfl
  | false =>
    rw [if_neg Bool.false_ne_true, List.take_zero, Memory.write_nil]
    rfl

lemma dirWrite_past (hk : n ≤ k) : dirWrite (s.spend c) dir e (entrySize * k) = .ok (false, s.spend c) := by
  by_cases hw : i.denyWriteCnt = 0
  swap
  · exact dirWrite_denied hi hw _
  obtain ⟨m, ms, hrun, ht⟩ := inodeWriteAt_eq (s := s.spend c) hp hi hd hw e entrySize (entrySize * k)
  have hspan : min (min (entrySize : Int).toNat e.length) (d.length - entrySize * k) = 0 := by
    rw [hl, entrySize]
    omega
  rw [hspan] at ht
  obtain rfl : m = 0 := Nat.le_zero.mp ht.le
  obtain rfl : ms = (s.spend c).mallocs := ht.kept (.inr fun hb => hb.1 rfl)
  rw [dirWrite, hrun, bind_ok, List.take_zero, Memory.write_nil]
  rfl

lemma lookupLoop_spend (name : Name) (fuel k : Nat) (hk : k ≤ n) (hf : n < fuel + k) :
    ∃ j, First (fun l => s.grants l = false ∨ Found (s.slot d l) name) k n j ∧
      lookupLoop dir name fuel (entrySize * k) (s.spend k) =
        .ok (if j < n ∧ s.grants j = true then some (s.slot d j, entrySize * j) else none,
          s.spend (min (j + 1) n)) := by
  induction fuel generalizing k with
  | zero => omega
  | succ fuel ih =>
    rw [lookupLoop]
    by_cases hkn : k < n
    swap
    · obtain rfl : k = n := by omega
      refine ⟨k, .of_end _ k, ?_⟩
      rw [readEntry_end (s := s.spend k) hd hl hp hi le_rfl, bind_ok, Nat.min_eq_right (Nat.le_succ k),
        if_neg fun h => Nat.lt_irrefl k h.1]
      rfl
    have hmin : min (k + 1) n = k + 1 := by omega
    cases hg : s.grants k with
    | false =>
      refine ⟨k, .of_meets hkn (.inl hg), ?_⟩
      rw [readEntry_spend hd hl hp hi hkn, hg, bind_ok, hmin, if_neg Bool.false_ne_true,
        if_neg fun h => Bool.false_ne_true h.2]
      rfl
    | true =>
      rw [readEntry_spend hd hl hp hi hkn, hg, bind_ok, if_pos rfl]
      simp only [length_slot, if_true]
      by_cases hfound : Found (s.slot d k) name
      · refine ⟨k, .of_meets hkn (.inr hfound), ?_⟩
        refine (if_pos hfound).trans ?_
        rw [hmin, if_pos ⟨hkn, hg⟩]
        rfl
      · obtain ⟨j, hj, hrun⟩ := ih (k + 1) (by omega) (by omega)
        refine ⟨j, hj.succ fun h => ?_, (if_neg hfound).trans hrun⟩
        rcases h with h | h
        · cases hg.symm.trans h
        · exact hfound h

lemma slotLoop_spend (c fuel k : Nat) (he : e.length = entrySize) (hk : k ≤ n)
    (hf : n < fuel + k) :
    ∃ j e', First (fun l => s.grants (c + l) = false ∨ entryInUse (s.slot d l) = false) k n j ∧
      slotLoop dir fuel (entrySize * k) e (s.spend (c + k)) =
        .ok (e', entrySize * j, s.spend (c + min (j + 1) n)) ∧ e'.length = entrySize := by
  induction fuel generalizing k e with
  | zero => omega
  | succ fuel ih =>
    rw [slotLoop]
    by_cases hkn : k < n
    swap
    · obtain rfl : k = n := by omega
      refine ⟨k, e, .of_end _ k, ?_, he⟩
      rw [readEntry_end (s := s.spend (c + k)) hd hl hp hi le_rfl, bind_ok, Nat.min_eq_right (Nat.le_succ k)]
      simp only [overlay_nil]
      exact if_neg fun h => by simp [entrySize] at h
    have hmin : c + min (k + 1) n = c + k + 1 := by omega
    cases hg : s.grants (c + k) with
    | false =>
      refine ⟨k, e, .of_meets hkn (.inl hg), ?_, he⟩
      rw [readEntry_spend hd hl hp hi hkn, hg, bind_ok, hmin, if_neg Bool.false_ne_true]
      simp only [overlay_nil]
      exact if_neg fun h => by simp [entrySize] at h
    | true =>
      have hover : overlay e 0 (s.slot d k) = s.slot d k := by
        rw [overlay, List.take_zero, List.nil_append, List.drop_eq_nil_of_le (by rw [he, length_slot]; omega),
          List.append_nil]
      rw [readEntry_spend hd hl hp hi hkn, hg, bind_ok, if_pos rfl]
      simp only [hover, length_slot, true_and]
      cases hu : entryInUse (s.slot d k) with
      | false =>
        refine ⟨k, s.slot d k, .of_meets hkn (.inr hu), ?_, length_slot s d k⟩
        rw [hmin, if_neg Bool.false_ne_true]
        rfl
      | true =>
        obtain ⟨j, e', hj, hrun, hlen⟩ := ih (k + 1) (length_slot s d k) (by omega) (by omega)
        refine ⟨j, e', hj.succ fun h => ?_, ?_, hlen⟩
        · rcases h with h | h
          · cases hg.symm.trans h
          · cases hu.symm.trans h
        · rw [if_pos rfl]
          exact hrun

omit hp in
lemma entryFuel_eq : s.entryFuel dir.inode = n + 1 := by
  have hlen : i.data.length = (entrySize * n : Nat) := by rw [hd, Obj.data, hl]
  simp only [Fs.entryFuel, hi, hlen, Int.toNat_natCast]
  rw [Nat.mul_div_cancel_left n (by decide)]

end Entries

structure AddScans (s : Fs) (d : Obj) (n : Nat) (name : Name) (j k : Nat) : Prop where
  checked : First (fun l => s.grants l = false ∨ Found (s.slot d l) name) 0 n j
  unseen : j < n → s.grants j = false
  searched : First (fun l => s.grants (min (j + 1) n + l) = false ∨ entryInUse (s.slot d l) = false) 0 n k

def AddsAt (s : Fs) (d : Obj) (n : Nat) (i : Inode) (name : Name) (k : Nat) : Prop :=
  nameValid name = true ∧ i.denyWriteCnt = 0 ∧
    ∃ j, AddScans s d n name j k ∧ k < n ∧ s.grants (min (j + 1) n + (k + 1)) = true

variable {name : Name}

lemma AddsAt.unique {k k' : Nat} (h : AddsAt s d n i name k) (h' : AddsAt s d n i name k') : k = k' := by
  obtain ⟨-, -, j, hj, -, -⟩ := h
  obtain ⟨-, -, j', hj', -, -⟩ := h'
  obtain rfl := hj.checked.unique hj'.checked
  exact hj.searched.unique hj'.searched

section Adding

variable {dir : Dir} (hd : i.data = d.data) (hl : d.length = entrySize * n)
  (hp : d.start + d.cnt ≤ s.sectors) (hi : s.inode dir.inode = some i)

include hd hl hp hi

lemma lookup_spend (name : Name) :
    ∃ j, First (fun l => s.grants l = false ∨ Found (s.slot d l) name) 0 n j ∧
      lookup s dir name = .ok (if j < n ∧ s.grants j = true then some (s.slot d j, entrySize * j) else none,
        s.spend (min (j + 1) n)) := by
  obtain ⟨j, hj, hrun⟩ := lookupLoop_spend hd hl hp hi name (n + 1) 0 (Nat.zero_le n) (by omega)
  refine ⟨j, hj, ?_⟩
  rw [lookup, entryFuel_eq hd hl hi]
  exact hrun

lemma dirSlot_spend (c : Nat) :
    ∃ k e, First (fun l => s.grants (c + l) = false ∨ entryInUse (s.slot d l) = false) 0 n k ∧
      dirSlot (s.spend c) dir = .ok (e, entrySize * k, s.spend (c + min (k + 1) n)) ∧ e.length = entrySize := by
  obtain ⟨k, e, hk, hrun, he⟩ := slotLoop_spend hd hl hp hi c (n + 1) 0 (e := List.replicate entrySize 0)
    List.length_replicate (Nat.zero_le n) (by omega)
  refine ⟨k, e, hk, ?_, he⟩
  rw [dirSlot, entryFuel_eq (s := s.spend c) hd hl hi]
  exact hrun

lemma dirAdd_spend (name : Name) (sector : Nat) :
    ∃ ok t, dirAdd s dir name sector = .ok (ok, t) ∧
      (ok = false → (∃ c, t = s.spend c) ∧ ∀ k, ¬ AddsAt s d n i name k) ∧
      (ok = true → ∃ k e c, AddsAt s d n i name k ∧ e.length = entrySize ∧
        t = s.withSlot d k (Entry.fill e name sector) (s.mallocs.drop c)) := by
  rw [dirAdd]
  by_cases hv : nameValid name = true
  swap
  · rw [if_neg hv]
    exact ⟨false, s, rfl, fun _ => ⟨⟨0, rfl⟩, fun k h => hv h.1⟩, nofun⟩
  obtain ⟨j, hj, hlook⟩ := lookup_spend hd hl hp hi name
  rw [if_pos hv, hlook, bind_ok]
  by_cases hseen : j < n ∧ s.grants j = true
  · rw [if_pos hseen]
    refine ⟨false, _, rfl, fun _ => ⟨⟨_, rfl⟩, ?_⟩, nofun⟩
    rintro k ⟨-, -, j', hj', -, -⟩
    obtain rfl := hj.unique hj'.checked
    cases hseen.2.symm.trans (hj'.unseen hseen.1)
  have hunseen : j < n → s.grants j = false := fun hlt => eq_false_of_ne_true fun hg => hseen ⟨hlt, hg⟩
  obtain ⟨k, e, hk, hslot, he⟩ := dirSlot_spend hd hl hp hi (min (j + 1) n)
  have hlen := length_fill he (nameValid_iff.mp hv).2 sector
  have hscans : AddScans s d n name j k := ⟨hj, hunseen, hk⟩
  rw [if_neg hseen]
  simp only [hslot, bind_ok]
  by_cases hkn : k < n
  swap
  · rw [dirWrite_past hd hl hp hi (by omega)]
    refine ⟨false, _, rfl, fun _ => ⟨⟨_, rfl⟩, ?_⟩, nofun⟩
    rintro k' ⟨-, -, j', hj', hlt, -⟩
    obtain rfl := hj.unique hj'.checked
    obtain rfl := hk.unique hj'.searched
    exact hkn hlt
  rw [Nat.min_eq_left (show k + 1 ≤ n from hkn)]
  have hrefuse : ∀ k', AddsAt s d n i name k' → i.denyWriteCnt = 0 ∧ s.grants (min (j + 1) n + (k + 1)) = true := by
    rintro k' ⟨-, hw, j', hj', -, hg⟩
    obtain rfl := hj.unique hj'.checked
    obtain rfl := hk.unique hj'.searched
    exact ⟨hw, hg⟩
  by_cases hw : i.denyWriteCnt = 0
  swap
  · exact ⟨false, _, dirWrite_denied hi hw _, fun _ => ⟨⟨_, rfl⟩, fun k' h => hw (hrefuse k' h).1⟩, nofun⟩
  rw [dirWrite_spend hd hl hp hi hw hlen hkn]
  cases hg : s.grants (min (j + 1) n + (k + 1)) with
  | false =>
    refine ⟨false, _, rfl, fun _ => ⟨⟨_, rfl⟩, fun k' h => ?_⟩, nofun⟩
    exact Bool.false_ne_true (hg.symm.trans (hrefuse k' h).2)
  | true => exact ⟨true, _, rfl, nofun, fun _ => ⟨k, e, _, ⟨hv, hw, j, hscans, hkn, hg⟩, he, rfl⟩⟩

end Adding

lemma AddsAt.lt {k : Nat} (h : AddsAt s d n i name k) : k < n := by
  obtain ⟨-, -, j, -, hkn, -⟩ := h
  exact hkn

lemma AddsAt.of_quiet {k : Nat} (h : AddsAt s d n i name k)
    (hq : s.mallocs = []) : entryInUse (s.slot d k) = false ∧ ∀ l < n, ¬ Found (s.slot d l) name := by
  obtain ⟨-, -, j, ⟨hchecked, hunseen, hsearched⟩, hkn, -⟩ := h
  have hall := grants_of_quiet hq
  have hj : j = n := by
    by_contra hne
    cases (hall j).symm.trans (hunseen (lt_of_le_of_ne hchecked.le hne))
  refine ⟨(hsearched.meets hkn).resolve_left fun hg => ?_, fun l hl hf => ?_⟩
  · cases (hall _).symm.trans hg
  · exact hchecked.before l (Nat.zero_le l) (hj ▸ hl) (.inr hf)

lemma AddsAt.exists_of_quiet (hq : s.mallocs = [])
    (hv : nameValid name = true) (hw : i.denyWriteCnt = 0) (habsent : ∀ l < n, ¬ Found (s.slot d l) name)
    (hfree : ∃ k < n, entryInUse (s.slot d k) = false) : ∃ k, AddsAt s d n i name k := by
  have hall := grants_of_quiet hq
  obtain ⟨k, hkn, hk⟩ := First.exists_of_meets hfree
  -- with every buffer granted the check runs to the end and the search to the first free slot
  refine ⟨k, hv, hw, n, ⟨⟨Nat.zero_le n, le_rfl, fun hn => by omega, ?_⟩, fun hn => by omega, ?_⟩, hkn, hall _⟩
  · rintro l - hl (hg | hf)
    · cases (hall l).symm.trans hg
    · exact habsent l hl hf
  · refine hk.congr fun l _ => ⟨.inr, fun hl => hl.resolve_left fun hg => ?_⟩
    cases (hall _).symm.trans hg

end Pintos.Filesys
