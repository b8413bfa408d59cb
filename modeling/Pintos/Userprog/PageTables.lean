import Pintos.Foundation.Runs
import Pintos.Userprog.Pagedir

/-! Page directories as maps from user pages to frames. -/

namespace Pintos.Userprog.Pagedir

open Pintos.Foundation Pintos.Kernel Function

structure IsPage (p : Nat) : Prop where
  ofs : pgOfs p = 0
  base : physBase ≤ p
  lt : p < 4294967296

instance (p : Nat) : Decidable (IsPage p) :=
  decidable_of_iff (pgOfs p = 0 ∧ physBase ≤ p ∧ p < 4294967296) ⟨fun h => ⟨h.1, h.2.1, h.2.2⟩,
    fun h => ⟨h.1, h.2, h.3⟩⟩

section Words

variable {p k : Nat} {w f : Word}

lemma pteAddr_eq : pteAddr = ~~~BitVec.ofNat 32 (2 ^ 12 - 1) := by decide

lemma IsPage.aligned (h : IsPage p) : (p - physBase) % 2 ^ 12 = 0 ∧ p - physBase < 2 ^ 32 := by
  have hofs := h.ofs
  have hlt := h.lt
  have hbase := h.base
  simp only [pgOfs, pgSize, physBase] at hofs hbase ⊢
  omega

lemma IsPage.toNat_addr (h : IsPage p) (hf : f &&& pteAddr = 0#32) :
    ((BitVec.ofNat 32 (p - physBase) ||| f) &&& pteAddr).toNat = p - physBase := by
  rw [pteAddr_eq] at hf ⊢
  exact ofNat_or_and h.aligned.1 h.aligned.2 (by decide) hf

lemma IsPage.and_flag (h : IsPage p) (hf : pteAddr &&& f = 0#32) : BitVec.ofNat 32 (p - physBase) &&& f = 0#32 := by
  rw [pteAddr_eq] at hf
  exact ofNat_and_flag h.aligned.1 h.aligned.2 (by decide) hf

lemma IsPage.ptov_eq (h : IsPage p) : ptov (p - physBase) = .ok p := by
  have hlt := h.lt
  have hbase := h.base
  simp only [physBase] at hbase
  have hphys : p - physBase < physBase := by
    simp only [physBase]
    omega
  have hback : p - physBase + physBase = p := Nat.sub_add_cancel h.base
  rw [ptov, assertThat_pos hphys, bind_ok, hback, wrap_of_lt hlt]
  rfl

def pdeOf (p : Nat) : Word := BitVec.ofNat 32 (p - physBase) ||| pteU ||| pteP ||| pteW

def pteOf (k : Nat) (writable : Bool) : Word :=
  BitVec.ofNat 32 (k - physBase) ||| pteP ||| (if writable then pteW else 0) ||| pteU

lemma vtop_eq (h : physBase ≤ p) : vtop p = .ok (p - physBase) := by
  rw [vtop, assertThat_pos h]
  rfl

lemma IsPage.pdeCreate_eq (h : IsPage p) : pdeCreate p = .ok (pdeOf p) := by
  rw [pdeCreate, assertThat_pos h.ofs, vtop_eq h.base]
  rfl

lemma pdeOf_present (p : Nat) : pdeOf p &&& pteP ≠ 0 := by
  rw [pdeOf, or_and_of_disjoint _ (by decide), or_and_self]
  decide

lemma pdeOf_ne_zero (p : Nat) : pdeOf p ≠ 0 := fun h => pdeOf_present p (by rw [h]; decide)

lemma IsPage.pdeGetPt_eq (h : IsPage p) : pdeGetPt (pdeOf p) = .ok p := by
  have haddr : (pdeOf p &&& pteAddr).toNat = p - physBase := by
    rw [pdeOf, BitVec.or_assoc, BitVec.or_assoc]
    exact h.toNat_addr (by decide)
  rw [pdeGetPt, assertThat_pos (pdeOf_present p), bind_ok, haddr, h.ptov_eq]

lemma pteCreateUser_eq (hofs : pgOfs k = 0) (hbase : physBase ≤ k) (writable : Bool) :
    pteCreateUser k writable = .ok (pteOf k writable) := by
  rw [pteCreateUser, pteCreateKernel, assertThat_pos hofs, vtop_eq hbase]
  rfl

end Words

inductive Cell
  | never
  | mapped (kpage : Nat) (writable : Bool)
  | cleared (kpage : Nat) (writable : Bool)
  deriving DecidableEq, Repr

def Cell.clear : Cell → Cell
  | .mapped kpage writable => .cleared kpage writable
  | c => c

def Cell.frame : Cell → Option Nat
  | .mapped kpage _ => some kpage
  | _ => none

def Cell.writable : Cell → Option Bool
  | .never => none
  | .mapped _ writable => some writable
  | .cleared _ writable => some writable

structure Agrees (w : Word) (c : Cell) : Prop where
  present : w &&& pteP ≠ 0 ↔ c.frame ≠ none
  frame : ∀ k ∈ c.frame, IsPage k ∧ (w &&& pteAddr).toNat = k - physBase
  writable : ∀ b ∈ c.writable, (w &&& pteW ≠ 0 ↔ b = true)

section Entries

variable {w f : Word} {c : Cell} {k : Nat}

lemma Agrees.of_same {w' : Word} (h : Agrees w c) (hP : w' &&& pteP = w &&& pteP)
    (hA : w' &&& pteAddr = w &&& pteAddr) (hW : w' &&& pteW = w &&& pteW) : Agrees w' c where
  present := hP ▸ h.present
  frame k hk := hA ▸ h.frame k hk
  writable b hb := hW ▸ h.writable b hb

lemma agrees_zero : Agrees 0 .never where
  present := by decide
  frame k hk := absurd hk (Option.not_mem_none k)
  writable b hb := absurd hb (Option.not_mem_none b)

lemma agrees_pteOf (hk : IsPage k) (writable : Bool) : Agrees (pteOf k writable) (.mapped k writable) where
  present := by
    refine iff_of_true ?_ (Option.some_ne_none k)
    rw [pteOf, or_and_of_disjoint _ (by decide), or_and_of_disjoint _ (by cases writable <;> decide), or_and_self]
    decide
  frame k' hk' := by
    obtain rfl := Option.some.inj hk'
    refine ⟨hk, ?_⟩
    rw [pteOf, BitVec.or_assoc, BitVec.or_assoc]
    exact hk.toNat_addr (by cases writable <;> decide)
  writable b hb := by
    obtain rfl := Option.some.inj hb
    rw [pteOf, or_and_of_disjoint _ (by decide)]
    cases writable with
    | false =>
      rw [or_and_of_disjoint _ (by decide), or_and_of_disjoint _ (by decide), hk.and_flag (by decide)]
      decide
    | true =>
      rw [if_pos rfl, or_and_self]
      decide

lemma Agrees.setFlag (h : Agrees w c) (hP : f &&& pteP = 0#32) (hW : f &&& pteW = 0#32) (hA : f &&& pteAddr = 0#32)
    (value : Bool) : Agrees (if value then w ||| f else w &&& ~~~f) c := by
  cases value with
  | false =>
    exact h.of_same (and_not_and_of_disjoint w hP) (and_not_and_of_disjoint w hA) (and_not_and_of_disjoint w hW)
  | true => exact h.of_same (or_and_of_disjoint w hP) (or_and_of_disjoint w hA) (or_and_of_disjoint w hW)

lemma Agrees.clear (h : Agrees w c) : Agrees (w &&& ~~~pteP) c.clear where
  present := by
    have hnone : c.clear.frame = none := by cases c <;> rfl
    have hzero : w &&& ~~~pteP &&& pteP = 0 := by
      rw [BitVec.and_assoc]
      exact (congrArg (w &&& ·) (by decide : ~~~pteP &&& pteP = 0#32)).trans BitVec.and_zero
    rw [hnone, hzero]
    exact iff_of_false (fun hne => hne rfl) fun hne => hne rfl
  frame k hk := by cases c <;> exact absurd hk (Option.not_mem_none k)
  writable b hb := by
    rw [and_not_and_of_disjoint w (by decide)]
    refine h.writable b ?_
    cases c <;> exact hb

lemma Agrees.clear_eq (h : Agrees w c) (hw : w &&& pteP = 0) : c.clear = c := by
  cases c with
  | mapped k b => exact absurd hw (h.present.mpr (Option.some_ne_none k))
  | never => rfl
  | cleared k b => rfl

end Entries

structure Mapped where
  paging : Paging
  pd : Nat
  boot : List Nat
  copied : Nat → Word
  cell : Nat → Cell

def Mapped.created (s : Mapped) : List Nat :=
  s.paging.allocated.take (s.paging.allocated.length - (s.boot.length + 1))

structure Radix (s : Mapped) (table : Nat → Option Nat) : Prop where
  pd : IsPage s.pd
  entry : ∀ i, i < 768 → s.paging.entries s.pd i = (table i).elim 0 pdeOf
  kernel : ∀ i, 768 ≤ i → i < 1024 → s.paging.entries s.pd i = s.copied i
  shared : ∀ i, 768 ≤ i → i < 1024 → s.copied i = 0 ∨ ∃ p ∈ s.boot, IsPage p ∧ s.copied i = pdeOf p
  bound : ∀ i, table i ≠ none → i < 768
  page : ∀ i, ∀ p ∈ table i, IsPage p
  inj : ∀ i j, ∀ p ∈ table i, p ∈ table j → i = j
  allocated : s.paging.allocated = s.created ++ s.pd :: s.boot
  nodup : (s.created ++ s.pd :: s.boot).Nodup
  mem_created : ∀ p, p ∈ s.created ↔ ∃ i, p ∈ table i
  never : ∀ i, table i = none → ∀ j, j < 1024 → s.cell (i * 1024 + j) = .never
  agrees : ∀ i, i < 768 → ∀ j, j < 1024 →
    Agrees ((table i).elim 0 fun p => s.paging.entries p j) (s.cell (i * 1024 + j))

lemma pdNo_lt {va : Nat} (h : va < physBase) : pdNo va < 768 := by
  simp only [pdNo, physBase] at *
  omega

lemma pgNo_eq (va : Nat) : pgNo va = pdNo va * 1024 + ptNo va := by
  simp only [pgNo, pdNo, ptNo, pgSize]
  omega

lemma ptNo_lt (va : Nat) : ptNo va < 1024 := Nat.mod_lt _ (by decide)

section Lookups

variable {s : Mapped} {table : Nat → Option Nat} {va : Nat}

lemma IsPage.ne_zero {p : Nat} (h : IsPage p) : p ≠ 0 := by
  have hbase := h.base
  simp only [physBase] at hbase
  omega

lemma lookupPage_of_zero {s : Paging} {pd : Nat} (hpd : pd ≠ 0) (h : s.entries pd (pdNo va) = 0) :
    lookupPage s 0 pd va false = .ok (none, s) := by
  rw [lookupPage, assertThat_pos hpd, assertThat_pos (.inl rfl)]
  simp only [bind_ok, Paging.load, h, if_true, Bool.false_eq_true, if_false]
  rfl

lemma lookupPage_of_pdeOf {s : Paging} {page pd p : Nat} {create : Bool} (hpd : pd ≠ 0)
    (hc : create = false ∨ isUserVaddr va = true) (hp : IsPage p) (h : s.entries pd (pdNo va) = pdeOf p) :
    lookupPage s page pd va create = .ok (some ⟨p, ptNo va⟩, s) := by
  rw [lookupPage, assertThat_pos hpd, assertThat_pos hc]
  simp only [bind_ok, Paging.load, h, if_neg (pdeOf_ne_zero p), hp.pdeGetPt_eq]
  rfl

lemma Radix.lookup_user (h : Radix s table) (hva : va < physBase) :
    lookupPage s.paging 0 s.pd va false = .ok ((table (pdNo va)).map fun p => ⟨p, ptNo va⟩, s.paging) := by
  have hentry := h.entry _ (pdNo_lt hva)
  cases ht : table (pdNo va) with
  | none =>
    rw [ht] at hentry
    exact lookupPage_of_zero h.pd.ne_zero hentry
  | some p =>
    rw [ht] at hentry
    exact lookupPage_of_pdeOf h.pd.ne_zero (.inl rfl) (h.page _ p ht) hentry

lemma Radix.lookup_kernel (h : Radix s table) (hlow : 768 ≤ pdNo va) (hva : va < 4294967296) :
    lookupPage s.paging 0 s.pd va false = .ok (none, s.paging) ∨
      ∃ p ∈ s.boot, lookupPage s.paging 0 s.pd va false = .ok (some ⟨p, ptNo va⟩, s.paging) := by
  have hlt : pdNo va < 1024 := by
    simp only [pdNo]
    omega
  have hentry := h.kernel _ hlow hlt
  rcases h.shared _ hlow hlt with hzero | ⟨p, hp, hpage, hpde⟩
  · exact .inl (lookupPage_of_zero h.pd.ne_zero (hentry.trans hzero))
  · exact .inr ⟨p, hp, lookupPage_of_pdeOf h.pd.ne_zero (.inl rfl) hpage (hentry.trans hpde)⟩

end Lookups

section Stores

variable {s : Mapped} {table : Nat → Option Nat} {i j p q : Nat} {w : Word} {c : Cell}

lemma Paging.entries_store_of_ne {s : Paging} (h : q ≠ p) : (s.store ⟨p, j⟩ w).entries q = s.entries q :=
  update_of_ne h _ _

variable (h : Radix s table)

include h

lemma Radix.mem_allocated (hp : p ∈ table i) : p ∈ s.created := (h.mem_created p).mpr ⟨i, hp⟩

lemma Radix.ne_pd (hp : p ∈ table i) : p ≠ s.pd := fun he =>
  (List.nodup_append.mp h.nodup).2.2 p (h.mem_allocated hp) s.pd List.mem_cons_self he

lemma Radix.ne_boot (hp : p ∈ table i) (hq : q ∈ s.boot) : p ≠ q :=
  (List.nodup_append.mp h.nodup).2.2 p (h.mem_allocated hp) q (List.mem_cons_of_mem _ hq)

lemma Radix.pd_ne_boot (hq : q ∈ s.boot) : s.pd ≠ q := fun he =>
  (List.nodup_cons.mp (List.nodup_append.mp h.nodup).2.1).1 (he ▸ hq)

lemma Radix.storeShared (hp : p ∈ s.boot) : Radix { s with paging := s.paging.store ⟨p, j⟩ w } table := by
  have hpd : (s.paging.store ⟨p, j⟩ w).entries s.pd = s.paging.entries s.pd :=
    Paging.entries_store_of_ne (h.pd_ne_boot hp)
  refine { h with entry := fun i hi => ?_, kernel := fun i hlow hi => ?_, agrees := fun i hi j' hj => ?_ }
  · exact (congrFun hpd i).trans (h.entry i hi)
  · exact (congrFun hpd i).trans (h.kernel i hlow hi)
  · have hagrees := h.agrees i hi j' hj
    cases ht : table i with
    | none => rwa [ht] at hagrees
    | some q =>
      rw [ht] at hagrees
      have hq : (s.paging.store ⟨p, j⟩ w).entries q = s.paging.entries q :=
        Paging.entries_store_of_ne (h.ne_boot ht hp)
      change Agrees ((s.paging.store ⟨p, j⟩ w).entries q j') _
      rwa [hq]

lemma Radix.storeUser (hp : p ∈ table i) (hj : j < 1024) (hc : Agrees w c) :
    Radix { s with paging := s.paging.store ⟨p, j⟩ w, cell := update s.cell (i * 1024 + j) c } table := by
  have hpd : (s.paging.store ⟨p, j⟩ w).entries s.pd = s.paging.entries s.pd :=
    Paging.entries_store_of_ne (h.ne_pd hp).symm
  refine { h with entry := fun i hi => ?_, kernel := fun i hlow hi => ?_, never := fun i' hi' j' hj' => ?_,
                  agrees := fun i' hi' j' hj' => ?_ }
  · exact (congrFun hpd i).trans (h.entry i hi)
  · exact (congrFun hpd i).trans (h.kernel i hlow hi)
  · have hne : i' ≠ i := fun he => Option.not_mem_none p (hi' ▸ he ▸ hp)
    have hcell : i' * 1024 + j' ≠ i * 1024 + j := by omega
    change update s.cell (i * 1024 + j) c (i' * 1024 + j') = .never
    rw [update_of_ne hcell, h.never i' hi' j' hj']
  · have hagrees := h.agrees i' hi' j' hj'
    dsimp only
    by_cases hsame : i' = i ∧ j' = j
    · obtain ⟨rfl, rfl⟩ := hsame
      rw [update_self, hp]
      change Agrees (update s.paging.entries p _ p j') c
      rwa [update_self, update_self]
    · have hcell : i' * 1024 + j' ≠ i * 1024 + j := fun he => hsame (by omega)
      rw [update_of_ne hcell]
      cases ht : table i' with
      | none => rwa [ht] at hagrees
      | some q =>
        rw [ht] at hagrees
        rcases eq_or_ne q p with rfl | hq
        · obtain rfl := h.inj i' i q ht hp
          change Agrees (update s.paging.entries q _ q j') _
          rw [update_self, update_of_ne fun hj => hsame ⟨rfl, hj⟩]
          exact hagrees
        · have hkeep : (s.paging.store ⟨p, j⟩ w).entries q = s.paging.entries q := Paging.entries_store_of_ne hq
          change Agrees ((s.paging.store ⟨p, j⟩ w).entries q j') _
          rwa [hkeep]

omit h in
lemma Mapped.created_eq {created : List Nat} (h : s.paging.allocated = created ++ s.pd :: s.boot) :
    s.created = created := by
  rw [Mapped.created, h, List.length_append, List.length_cons, Nat.add_sub_cancel, List.take_left]

def Mapped.withTable (s : Mapped) (i page : Nat) : Mapped :=
  { s with paging := ((s.paging.grant page).fill page fun _ => 0).store ⟨s.pd, i⟩ (pdeOf page) }

lemma Radix.withTable {page : Nat} (hi : i < 768) (hnone : table i = none) (hpage : IsPage page)
    (hfresh : page ∉ s.paging.allocated) : Radix (s.withTable i page) (update table i (some page)) := by
  have hcreated : (s.withTable i page).created = page :: s.created :=
    Mapped.created_eq (congrArg (page :: ·) h.allocated)
  rw [h.allocated] at hfresh
  have hpd : s.pd ≠ page := fun he => hfresh (he ▸ by simp)
  have hdir : ∀ i', (s.withTable i page).paging.entries s.pd i' =
      if i' = i then pdeOf page else s.paging.entries s.pd i' := by
    intro i'
    change update (update s.paging.entries page _) s.pd (update (update s.paging.entries page _ s.pd) i _) s.pd i' = _
    rw [update_self, update_of_ne hpd, update_apply]
  have hother : ∀ q, q ≠ s.pd → q ≠ page → (s.withTable i page).paging.entries q = s.paging.entries q := by
    intro q hq hq'
    change update (update s.paging.entries page _) s.pd _ q = _
    rw [update_of_ne hq, update_of_ne hq']
  have hold : ∀ i' q, q ∈ table i' → q ≠ page := fun i' q hq he =>
    hfresh (List.mem_append_left _ (he ▸ h.mem_allocated hq))
  refine { pd := h.pd, shared := h.shared, entry := fun i' hi' => ?_, kernel := fun i' hlow hi' => ?_,
           bound := fun i' hi' => ?_, page := fun i' q hq => ?_, inj := fun i' j' q hq hq' => ?_,
           allocated := ?_, nodup := ?_, mem_created := fun q => ?_, never := fun i' hi' j hj => ?_,
           agrees := fun i' hi' j hj => ?_ }
  · refine (hdir i').trans ?_
    rcases eq_or_ne i' i with rfl | hne
    · rw [if_pos rfl, update_self]
      rfl
    · rw [if_neg hne, update_of_ne hne, h.entry i' hi']
  · refine (hdir i').trans ?_
    rw [if_neg (by omega), h.kernel i' hlow hi']
    rfl
  · rcases eq_or_ne i' i with rfl | hne
    · exact hi
    · rw [update_of_ne hne] at hi'
      exact h.bound i' hi'
  · rcases eq_or_ne i' i with rfl | hne
    · rw [update_self] at hq
      exact Option.some.inj hq ▸ hpage
    · rw [update_of_ne hne] at hq
      exact h.page i' q hq
  · rw [update_apply] at hq hq'
    split at hq <;> split at hq'
    · next h₁ h₂ => exact h₁.trans h₂.symm
    · exact absurd (Option.some.inj hq).symm (hold j' q hq')
    · exact absurd (Option.some.inj hq').symm (hold i' q hq)
    · exact h.inj i' j' q hq hq'
  · rw [hcreated]
    exact congrArg (page :: ·) h.allocated
  · rw [hcreated]
    exact List.nodup_cons.mpr ⟨hfresh, h.nodup⟩
  · rw [hcreated, List.mem_cons, h.mem_created]
    constructor
    · rintro (rfl | ⟨i', hq⟩)
      · exact ⟨i, by rw [update_self]; rfl⟩
      · refine ⟨i', ?_⟩
        rwa [update_of_ne fun he => by rw [he, hnone] at hq; exact Option.not_mem_none q hq]
    · rintro ⟨i', hq⟩
      rw [update_apply] at hq
      split at hq
      · exact .inl (Option.some.inj hq).symm
      · exact .inr ⟨i', hq⟩
  · rw [update_apply] at hi'
    split at hi'
    · exact nomatch hi'
    · exact h.never i' hi' j hj
  · have hagrees := h.agrees i' hi' j hj
    rcases eq_or_ne i' i with rfl | hne
    · rw [hnone] at hagrees
      rw [update_self]
      change Agrees (update (update s.paging.entries page fun _ => 0) s.pd _ page j) _
      rwa [update_of_ne hpd.symm, update_self]
    · rw [update_of_ne hne]
      cases ht : table i' with
      | none => rwa [ht] at hagrees
      | some q =>
        rw [ht] at hagrees
        change Agrees ((s.withTable i page).paging.entries q j) _
        rwa [hother q (h.ne_pd ht) (hold i' q ht)]

end Stores

end Pintos.Userprog.Pagedir
