import Mathlib.Data.List.Nodup
import Pintos.Userprog.PageMaps

/-! The pages that `pagedir_destroy` frees. -/

namespace Pintos.Userprog.Pagedir

open Pintos.Foundation Pintos.Kernel Function

def Separate (s : Mapped) : Op → Prop
  | .setPage page _ kpage _ => kpage ≠ page ∧ kpage ∉ s.paging.allocated ∧ (∀ n, (s.cell n).frame ≠ some kpage) ∧
      ∀ n, (s.cell n).frame ≠ some page
  | _ => True

structure Frames (cell : Nat → Cell) (allocated : List Nat) : Prop where
  bound : ∀ n, ∀ k ∈ (cell n).frame, n < 786432 ∧ IsPage k ∧ k ∉ allocated
  inj : ∀ n n', ∀ k ∈ (cell n).frame, k ∈ (cell n').frame → n = n'

section Runs

variable {s t : Mapped} {op : Op} {cell cell' : Nat → Cell} {allocated : List Nat}

lemma pgNo_lt {va : Nat} (h : va < physBase) : pgNo va < 786432 := by
  simp only [pgNo, pgSize, physBase] at *
  omega

lemma Frames.set {n k : Nat} {writable : Bool} (h : Frames cell allocated) (hn : n < 786432) (hk : IsPage k)
    (hfree : k ∉ allocated) (hnew : ∀ n, (cell n).frame ≠ some k) :
    Frames (update cell n (.mapped k writable)) allocated := by
  refine ⟨fun n' k' hk' => ?_, fun n₁ n₂ k' h₁ h₂ => ?_⟩
  · rcases eq_or_ne n' n with rfl | hne
    · rw [update_self] at hk'
      exact Option.some.inj hk' ▸ ⟨hn, hk, hfree⟩
    · rw [update_of_ne hne] at hk'
      exact h.bound n' k' hk'
  · rw [update_apply] at h₁ h₂
    split at h₁ <;> split at h₂
    · next e₁ e₂ => exact e₁.trans e₂.symm
    · exact absurd (Option.some.inj h₁ ▸ h₂) (hnew n₂)
    · exact absurd (Option.some.inj h₂ ▸ h₁) (hnew n₁)
    · exact h.inj n₁ n₂ k' h₁ h₂

lemma Frames.mono (h : Frames cell allocated) (hsub : ∀ n, ∀ k ∈ (cell' n).frame, k ∈ (cell n).frame) :
    Frames cell' allocated :=
  ⟨fun n k hk => h.bound n k (hsub n k hk), fun n n' k hk hk' => h.inj n n' k (hsub n k hk) (hsub n' k hk')⟩

lemma Frames.allocate {allocated' : List Nat} {page : Nat} (h : Frames cell allocated)
    (hsub : ∀ p ∈ allocated', p = page ∨ p ∈ allocated) (hpage : ∀ n, (cell n).frame ≠ some page) :
    Frames cell allocated' := by
  refine ⟨fun n k hk => ⟨(h.bound n k hk).1, (h.bound n k hk).2.1, fun hin => ?_⟩, h.inj⟩
  rcases hsub k hin with rfl | hin
  · exact hpage n hk
  · exact (h.bound n k hk).2.2 hin

lemma CellStep.frame {n k : Nat} (h : CellStep cell op cell') (hk : k ∈ (cell' n).frame) :
    k ∈ (cell n).frame ∨ ∃ page upage writable, op = .setPage page upage k writable := by
  cases h with
  | keep => exact .inl hk
  | set page upage kpage writable =>
    rw [update_apply] at hk
    split at hk
    · exact .inr ⟨page, upage, writable, by rw [Option.some.inj hk]⟩
    · exact .inl hk
  | clear upage =>
    rw [update_apply] at hk
    split at hk
    · cases hcell : cell (pgNo upage) <;> rw [hcell] at hk <;> exact absurd hk (Option.not_mem_none k)
    · exact .inl hk

lemma Frames.step (h : Frames s.cell s.paging.allocated) (hc : Separate s op)
    (hext : Extends s.paging t.paging op.page) (hcell : CellStep s.cell op cell') :
    Frames cell' t.paging.allocated := by
  have hzero : ∀ n, (s.cell n).frame ≠ some 0 := fun n hn => (h.bound n 0 hn).2.1.ne_zero rfl
  cases hcell with
  | keep =>
    refine h.allocate hext.allocated ?_
    cases op with
    | setPage page upage kpage writable => exact hc.2.2.2
    | clearPage upage => exact hzero
    | setDirty vpage dirty => exact hzero
    | setAccessed vpage accessed => exact hzero
  | set page upage kpage writable hva hk =>
    refine (h.allocate hext.allocated hc.2.2.2).set (pgNo_lt hva) hk (fun hin => ?_) hc.2.2.1
    exact (hext.allocated kpage hin).elim hc.1 hc.2.1
  | clear upage hva =>
    refine (h.allocate hext.allocated hzero).mono fun n k hk => ((CellStep.clear upage hva).frame hk).resolve_right ?_
    rintro ⟨_, _, _, he⟩
    cases he

lemma reachable_frames (h : system.ReachableWhere Separate s) : Inv s ∧ Frames s.cell s.paging.allocated := by
  refine h.invariant (I := fun s => Inv s ∧ Frames s.cell s.paging.allocated) ?_ fun s op t hi hc hs => ?_
  · intro s hs
    refine ⟨reachable_inv (.init hs), ?_⟩
    obtain ⟨p, page, -, -, -, rfl⟩ := hs
    exact ⟨fun n k hk => absurd hk (Option.not_mem_none k), fun n n' k hk => absurd hk (Option.not_mem_none k)⟩
  · obtain ⟨hinv, hext, hcell⟩ := hi.1.step hs
    exact ⟨hinv, hi.2.step hc hext hcell⟩

end Runs

section Destroying

variable {s : Mapped} {table : Nat → Option Nat} {f : Freeing} {freed : List Nat} {i p : Nat}

def framesOf (cell : Nat → Cell) (i : Nat) : List Nat :=
  (List.range 1024).filterMap fun j => (cell (i * 1024 + j)).frame

def freedFor (table : Nat → Option Nat) (cell : Nat → Cell) (i : Nat) : List Nat :=
  (table i).elim [] fun p => framesOf cell i ++ [p]

structure Left (s : Mapped) (f : Freeing) (freed : List Nat) : Prop where
  log : f.freed = freed
  same : ∀ q, q ∉ freed → f.paging.entries q = s.paging.entries q

lemma Left.free (h : Left s f freed) (p : Nat) : Left s (f.free p) (freed ++ [p]) where
  log := congrArg (· ++ [p]) h.log
  same q hq := by
    rw [List.mem_append, List.mem_singleton, not_or] at hq
    exact (update_of_ne hq.2 _ _).trans (h.same q hq.1)

lemma Frames.notMem {ns : List Nat} {g : Nat → Nat} (hf : Frames s.cell s.paging.allocated)
    (hp : p ∈ s.paging.allocated) : p ∉ ns.filterMap fun j => (s.cell (g j)).frame := fun hin => by
  obtain ⟨j, -, hj⟩ := List.mem_filterMap.mp hin
  exact (hf.bound _ p hj).2.2 hp

lemma Radix.mem_paging (h : Radix s table) (hp : p ∈ table i) : p ∈ s.paging.allocated := by
  rw [h.allocated]
  exact List.mem_append_left _ (h.mem_allocated hp)

lemma Left.freeEntry {j : Nat} (h : Left s f freed) (hr : Radix s table) (hp : p ∈ table i) (hj : j < 1024)
    (hfresh : p ∉ freed) :
    ∃ f', Pagedir.freeEntry p f j = .ok f' ∧ Left s f' (freed ++ (s.cell (i * 1024 + j)).frame.toList) := by
  have hi : i < 768 := hr.bound i fun hn => Option.not_mem_none p (hn ▸ hp)
  have hagrees := hr.agrees i hi j hj
  rw [hp, Option.elim_some] at hagrees
  have hload : f.paging.load ⟨p, j⟩ = s.paging.entries p j := congrFun (h.same p hfresh) j
  simp only [Pagedir.freeEntry, hload]
  cases hframe : (s.cell (i * 1024 + j)).frame with
  | none =>
    rw [if_neg fun hP => hagrees.present.mp hP hframe, Option.toList_none, List.append_nil]
    exact ⟨f, rfl, h⟩
  | some k =>
    obtain ⟨hk, haddr⟩ := hagrees.frame k hframe
    rw [if_pos (hagrees.present.mpr (by rw [hframe]; exact Option.some_ne_none k)), pteGetPage, haddr, hk.ptov_eq]
    exact ⟨f.free k, rfl, h.free k⟩

lemma Left.freeEntries (h : Left s f freed) (hr : Radix s table) (hf : Frames s.cell s.paging.allocated)
    (hp : p ∈ table i) (hfresh : p ∉ freed) :
    ∃ f', (List.range 1024).foldlM (Pagedir.freeEntry p) f = .ok f' ∧ Left s f' (freed ++ framesOf s.cell i) := by
  refine exists_foldlM (I := fun ns f => Left s f (freed ++ ns.filterMap fun j => (s.cell (i * 1024 + j)).frame)) ?_ ?_
  · intro ns j ms f' hsplit hleft
    have hj : j < 1024 := List.mem_range.mp (hsplit ▸ by simp)
    have hout : p ∉ freed ++ ns.filterMap fun j => (s.cell (i * 1024 + j)).frame := by
      rw [List.mem_append, not_or]
      exact ⟨hfresh, hf.notMem (hr.mem_paging hp)⟩
    obtain ⟨f'', hrun, hleft'⟩ := hleft.freeEntry hr hp hj hout
    refine ⟨f'', hrun, ?_⟩
    rw [List.filterMap_append, ← List.append_assoc]
    convert hleft' using 2
    cases hframe : (s.cell (i * 1024 + j)).frame <;> simp [hframe]
  · rw [List.filterMap_nil, List.append_nil]
    exact h

lemma Left.freeTable (h : Left s f freed) (hr : Radix s table) (hf : Frames s.cell s.paging.allocated)
    (hi : i < 768) (hpd : s.pd ∉ freed) (hfresh : ∀ p ∈ table i, p ∉ freed) :
    ∃ f', Pagedir.freeTable s.pd f i = .ok f' ∧ Left s f' (freed ++ freedFor table s.cell i) := by
  have hload : f.paging.load ⟨s.pd, i⟩ = (table i).elim 0 pdeOf :=
    (congrFun (h.same s.pd hpd) i).trans (hr.entry i hi)
  simp only [Pagedir.freeTable, hload, freedFor]
  cases ht : table i with
  | none =>
    rw [Option.elim_none, if_neg fun hne => hne BitVec.zero_and, Option.elim_none, List.append_nil]
    exact ⟨f, rfl, h⟩
  | some p =>
    obtain ⟨f', hrun, hleft⟩ := h.freeEntries hr hf ht (hfresh p ht)
    rw [Option.elim_some, if_pos (pdeOf_present p), (hr.page i p ht).pdeGetPt_eq, bind_ok, hrun, Option.elim_some,
      ← List.append_assoc]
    exact ⟨f'.free p, rfl, hleft.free p⟩

variable {q : Nat} {cell : Nat → Cell}

lemma mem_framesOf :
    q ∈ framesOf cell i ↔ ∃ j, j < 1024 ∧ (cell (i * 1024 + j)).frame = some q := by
  simp [framesOf]

lemma mem_freedFor :
    q ∈ freedFor table cell i ↔ ∃ p ∈ table i, q ∈ framesOf cell i ∨ q = p := by
  rw [freedFor]
  cases ht : table i <;> simp

lemma Radix.pd_mem (h : Radix s table) : s.pd ∈ s.paging.allocated := by
  rw [h.allocated]
  simp

lemma notMem_freedFor (hf : Frames s.cell s.paging.allocated)
    (hq : q ∈ s.paging.allocated) (hne : q ∉ table i) : q ∉ freedFor table s.cell i := fun hin => by
  obtain ⟨p, hp, hframe | rfl⟩ := mem_freedFor.mp hin
  · exact hf.notMem hq hframe
  · exact hne hp

variable (h : Radix s table) (hf : Frames s.cell s.paging.allocated)

include h hf

lemma Radix.exists_freeTables : ∃ f, (List.range 768).foldlM (Pagedir.freeTable s.pd) ⟨[], s.paging⟩ = .ok f ∧
      Left s f ((List.range 768).flatMap (freedFor table s.cell)) := by
  refine exists_foldlM (I := fun is f => Left s f (is.flatMap (freedFor table s.cell))) ?_ ⟨rfl, fun _ _ => rfl⟩
  intro is i js f hsplit hleft
  have hi : i < 768 := List.mem_range.mp (hsplit ▸ by simp)
  have hpd : s.pd ∉ is.flatMap (freedFor table s.cell) := fun hin => by
    obtain ⟨i', -, hin⟩ := List.mem_flatMap.mp hin
    exact notMem_freedFor hf h.pd_mem (fun hp => h.ne_pd hp rfl) hin
  have hfresh : ∀ p ∈ table i, p ∉ is.flatMap (freedFor table s.cell) := fun p hp hin => by
    obtain ⟨i', hi', hin⟩ := List.mem_flatMap.mp hin
    refine notMem_freedFor hf (h.mem_paging hp) (fun hp' => ?_) hin
    obtain rfl := h.inj i i' p hp hp'
    have hnodup := List.nodup_range (n := 768)
    rw [hsplit] at hnodup
    exact (List.nodup_append.mp hnodup).2.2 i hi' i List.mem_cons_self rfl
  rw [List.flatMap_append, List.flatMap_singleton]
  exact hleft.freeTable h hf hi hpd hfresh

lemma Radix.nodup_freed : ((List.range 768).flatMap (freedFor table s.cell)).Nodup := by
  refine List.nodup_flatMap.mpr ⟨fun i _ => ?_, List.nodup_range.imp fun {i i'} hne q hq hq' => ?_⟩
  · have hframes : (framesOf s.cell i).Nodup := by
      refine List.nodup_range.filterMap fun j j' k hk hk' => ?_
      have hsame := hf.inj _ _ k hk hk'
      omega
    rw [freedFor]
    cases ht : table i with
    | none => exact List.nodup_nil
    | some p =>
      refine List.nodup_append'.mpr ⟨hframes, List.nodup_singleton p, fun q hq hq' => ?_⟩
      rw [List.mem_singleton] at hq'
      exact hf.notMem (h.mem_paging ht) (hq' ▸ hq)
  · obtain ⟨p, hp, hq⟩ := mem_freedFor.mp hq
    rcases hq with hq | rfl
    · obtain ⟨p', hp', hq' | rfl⟩ := mem_freedFor.mp hq'
      · obtain ⟨j, hj, hq⟩ := mem_framesOf.mp hq
        obtain ⟨j', hj', hq'⟩ := mem_framesOf.mp hq'
        have hsame := hf.inj _ _ q hq hq'
        exact hne (by omega)
      · exact hf.notMem (h.mem_paging hp') hq
    · exact notMem_freedFor hf (h.mem_paging hp) (fun hp' => hne (h.inj i i' q hp hp')) hq'

lemma Radix.mem_freed (q : Nat) : q ∈ (List.range 768).flatMap (freedFor table s.cell) ↔
      (∃ n, (s.cell n).frame = some q) ∨ q ∈ s.created := by
  rw [List.mem_flatMap, h.mem_created]
  constructor
  · rintro ⟨i, -, hq⟩
    obtain ⟨p, hp, hq | rfl⟩ := mem_freedFor.mp hq
    · obtain ⟨j, -, hq⟩ := mem_framesOf.mp hq
      exact .inl ⟨_, hq⟩
    · exact .inr ⟨i, hp⟩
  · rintro (⟨n, hn⟩ | ⟨i, hq⟩)
    · have hlt := (hf.bound n q hn).1
      have hsplit : n / 1024 * 1024 + n % 1024 = n := Nat.div_add_mod' n 1024
      refine ⟨n / 1024, List.mem_range.mpr (by omega), mem_freedFor.mpr ?_⟩
      cases ht : table (n / 1024) with
      | none =>
        have hnever := h.never _ ht (n % 1024) (Nat.mod_lt _ (by decide))
        rw [hsplit] at hnever
        rw [hnever] at hn
        exact nomatch hn
      | some p =>
        refine ⟨p, rfl, .inl (mem_framesOf.mpr ⟨n % 1024, Nat.mod_lt _ (by decide), ?_⟩)⟩
        rwa [hsplit]
    · exact ⟨i, List.mem_range.mpr (h.bound i fun hn => Option.not_mem_none q (hn ▸ hq)),
        mem_freedFor.mpr ⟨q, hq, .inr rfl⟩⟩

end Destroying

theorem pagedir_destroy_frees_once (s : Mapped) (h : system.ReachableWhere Separate s) :
    ∃ f, pagedirDestroy s.paging s.pd = .ok f ∧ f.freed.Nodup ∧
      (∀ p, p ∈ f.freed ↔ (∃ n, (s.cell n).frame = some p) ∨ p ∈ s.created ∨ p = s.pd) ∧
      ∀ p ∈ f.freed, p ∉ s.boot := by
  obtain ⟨⟨-, hdir, table, hr⟩, hf⟩ := reachable_frames h
  obtain ⟨f, hrun, hleft⟩ := hr.exists_freeTables hf
  have hne : s.pd ≠ s.paging.initPageDir := hr.pd_ne_boot hdir
  have hdestroy : pagedirDestroy s.paging s.pd = .ok (f.free s.pd) := by
    rw [pagedirDestroy, if_neg hr.pd.ne_zero, assertThat_pos hne, bind_ok]
    exact congrArg (· >>= fun f : Freeing => pure (f.free s.pd)) hrun
  have hmem : ∀ p, p ∈ (f.free s.pd).freed ↔ (∃ n, (s.cell n).frame = some p) ∨ p ∈ s.created ∨ p = s.pd := fun p => by
    rw [(hleft.free s.pd).log, List.mem_append, List.mem_singleton, hr.mem_freed hf, or_assoc]
  refine ⟨f.free s.pd, hdestroy, ?_, hmem, fun p hp hboot => ?_⟩
  · rw [(hleft.free s.pd).log, List.nodup_append']
    refine ⟨hr.nodup_freed hf, List.nodup_singleton _, fun p hp hp' => ?_⟩
    rw [List.mem_singleton] at hp'
    subst hp'
    obtain ⟨i, -, hin⟩ := List.mem_flatMap.mp hp
    exact notMem_freedFor hf hr.pd_mem (fun ht => hr.ne_pd ht rfl) hin
  · rcases (hmem p).mp hp with ⟨n, hn⟩ | hcreated | rfl
    · refine (hf.bound n p hn).2.2 ?_
      rw [hr.allocated]
      exact List.mem_append_right _ (List.mem_cons_of_mem _ hboot)
    · obtain ⟨i, hi⟩ := (hr.mem_created p).mp hcreated
      exact hr.ne_boot hi hboot rfl
    · exact hr.pd_ne_boot hboot rfl

/-- The frames that are mapped, and the pages that page tables are in, are among those listed. -/
structure Keeps (s : Mapped) (frames pages : List Nat) : Prop where
  reach : system.ReachableWhere Separate s
  frames : ∀ n, ∀ k ∈ (s.cell n).frame, k ∈ frames
  pages : s.paging.allocated ⊆ pages

lemma Keeps.setPage {s t : Mapped} {frames pages : List Nat} {page upage kpage : Nat} {writable : Bool}
    (h : Keeps s frames pages) (hs : system.next s (.setPage page upage kpage writable) = some t)
    (hc : kpage ≠ page ∧ kpage ∉ pages ∧ kpage ∉ frames ∧ page ∉ frames) :
    Keeps t (kpage :: frames) (page :: pages) := by
  have hnext : s.next (.setPage page upage kpage writable) = some t := hs
  obtain ⟨-, hext, hcell⟩ := (reachable_inv h.reach.reachable).step hnext
  have hapart : Separate s (.setPage page upage kpage writable) := ⟨hc.1, fun hin => hc.2.1 (h.pages hin),
    fun n hn => hc.2.2.1 (h.frames n _ hn), fun n hn => hc.2.2.2 (h.frames n _ hn)⟩
  refine ⟨h.reach.step hapart hs, fun n k hk => ?_, fun p hp => ?_⟩
  · rcases hcell.frame hk with hk | ⟨_, _, _, he⟩
    · exact List.mem_cons_of_mem _ (h.frames n k hk)
    · cases he
      exact List.mem_cons_self
  · exact List.mem_cons.mpr ((hext.allocated p hp).imp id fun hin => h.pages hin)

def mappedOps : List Op :=
  [.setPage 0xc0104000 0x8048000 0xc0200000 true, .setPage 0 0x8049000 0xc0201000 false,
   .setPage 0 0x804a000 0xc0202000 true, .clearPage 0x8049000]

theorem pagedir_destroy_frees_mapped :
    ∃ s f, system.exec (.ofCreate smallPaging 0xc0103000) mappedOps = some s ∧ pagedirDestroy s.paging s.pd = .ok f ∧
      f.freed = [0xc0200000, 0xc0202000, 0xc0104000, 0xc0103000] ∧ f.freed.Nodup ∧ ∀ p ∈ f.freed, p ∉ s.boot := by
  have hfreed : ((system.exec (.ofCreate smallPaging 0xc0103000) mappedOps).map fun s =>
      (pagedirDestroy s.paging s.pd).toOption.map Freeing.freed) =
        some (some [0xc0200000, 0xc0202000, 0xc0104000, 0xc0103000]) := by
    decide +kernel
  obtain ⟨s, hs, hfreed⟩ := Option.map_eq_some_iff.mp hfreed
  obtain ⟨s₁, h₁, hrest⟩ := Option.bind_eq_some_iff.mp hs
  obtain ⟨s₂, h₂, hrest⟩ := Option.bind_eq_some_iff.mp hrest
  obtain ⟨s₃, h₃, hrest⟩ := Option.bind_eq_some_iff.mp hrest
  obtain ⟨_, h₄, hrest⟩ := Option.bind_eq_some_iff.mp hrest
  cases hrest
  have hstart : Keeps (.ofCreate smallPaging 0xc0103000) [] [0xc0103000, 0xc0102000, 0xc0101000] :=
    ⟨.init ⟨smallPaging, 0xc0103000, booted_smallPaging, by decide, by decide, rfl⟩, nofun, by decide⟩
  have hkeeps := ((hstart.setPage h₁ (by decide)).setPage h₂ (by decide)).setPage h₃ (by decide)
  have hclear : Separate s₃ (.clearPage 0x8049000) := trivial
  obtain ⟨f, hrun, hnodup, -, hkernel⟩ := pagedir_destroy_frees_once s (hkeeps.reach.step hclear h₄)
  rw [hrun] at hfreed
  exact ⟨s, f, hs, hrun, Option.some.inj hfreed, hnodup, hkernel⟩

end Pintos.Userprog.Pagedir
