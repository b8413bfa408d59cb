import Pintos.Foundation.Runs
import Pintos.Malloc.Calls

/-! Runs of calls to the block allocator. -/

namespace Pintos.Malloc

open Pintos.Foundation Pintos.Kernel

structure Machine where
  heap : Heap
  live : List Block

/-- The calls that clients make, and their stores; `answer` is where the page allocator would put new
pages, and a pointer argument is null or a block. -/
inductive Call
  | malloc (size : UInt32) (answer : Nat)
  | calloc (a b : UInt32) (answer : Nat)
  | realloc (old : Option Block) (newSize : UInt32) (answer : Nat)
  | free (p : Option Block)
  | store (b : Block) (ofs : Nat) (value : BitVec 8)

def pointer : Option Block → Nat
  | none => 0
  | some b => b.addr

def Call.Valid (x : Machine) : Call → Prop
  | .malloc _ _ | .calloc _ _ _ => True
  | .realloc old _ _ => ∀ b ∈ old, b ∈ x.live
  | .free p => ∀ b ∈ p, b ∈ x.live
  | .store b ofs _ => b ∈ x.live ∧ ofs < b.size

instance (x : Machine) (c : Call) : Decidable (c.Valid x) := by
  cases c <;> unfold Call.Valid <;> infer_instance

def perform (h : Heap) : Call → Except Panic (Nat × Heap)
  | .malloc size answer => malloc h size.toNat answer
  | .calloc a b answer => calloc h a.toNat b.toNat answer
  | .realloc old newSize answer => realloc h (pointer old) newSize.toNat answer
  | .free p => do return (0, ← free h (pointer p))
  | .store b ofs value => .ok (0, { h with mem := Function.update h.mem (b.addr + ofs) value })

def enlist (p size : Nat) (live : List Block) : List Block :=
  if p = 0 then live else ⟨p, size⟩ :: live

def delist (live : List Block) : Option Block → List Block
  | none => live
  | some b => live.erase b

def account (live : List Block) (p : Nat) : Call → List Block
  | .malloc size _ => enlist p size.toNat live
  | .calloc a b _ => enlist p (wrap (a.toNat * b.toNat)) live
  | .realloc old newSize _ =>
    if newSize.toNat = 0 then delist live old
    else if p = 0 then live else ⟨p, newSize.toNat⟩ :: delist live old
  | .free b => delist live b
  | .store _ _ _ => live

def next (x : Machine) (c : Call) : Option Machine :=
  if c.Valid x then
    match perform x.heap c with
    | .ok (p, h) => some ⟨h, account x.live p c⟩
    | .error _ => none
  else none

def system : System Machine Call where
  init x := x.live = [] ∧ ∃ m, x.heap = mallocInit m
  next := next

def SizeOk : Call → Prop
  | .malloc size _ => size.toNat + arenaSize ≤ 4294967296
  | .calloc a b _ => wrap (a.toNat * b.toNat) < a.toNat ∨ wrap (a.toNat * b.toNat) < b.toNat ∨
    wrap (a.toNat * b.toNat) + arenaSize ≤ 4294967296
  | .realloc _ newSize _ => newSize.toNat + arenaSize ≤ 4294967296
  | .free _ | .store _ _ _ => True

structure Good (h : Heap) (live : List Block) : Prop where
  inv : Inv h live
  used : (ledger h live).Used

def Regroups (h h' : Heap) : Prop :=
  ∃ gs, Separate PageGroup.range gs ∧ h.groups ⊆ gs ∧ h'.groups ⊆ gs

variable {b : Block} {c : Call} {d : Desc} {h : Heap} {live : List Block} {x y : Machine} {i : Nat}

section

variable (hg : Good h live)

include hg

lemma Good.regroups_self : Regroups h h :=
  ⟨h.groups, hg.inv.sound.separate, List.Subset.refl _, List.Subset.refl _⟩

lemma good_malloc {size : Nat} (hsize : size + arenaSize ≤ 4294967296) (answer : Nat) :
    ∃ p h', malloc h size answer = .ok (p, h') ∧ Good h' (enlist p size live) ∧
      h.groups ⊆ h'.groups := by
  rcases malloc_cases hg.inv hsize answer with hnull | ⟨p, h', hm, hne, hi, new, hgr, hnew, -⟩
  · exact ⟨0, h, hnull, hg, List.Subset.refl _⟩
  · refine ⟨p, h', hm, ?_, ?_⟩
    · rw [enlist, if_neg hne]
      refine ⟨hi, fun g hmem => ?_⟩
      have hmem : g ∈ h'.groups := hmem
      rw [hgr] at hmem
      rcases List.mem_append.mp hmem with hmem | hmem
      · exact ⟨_, List.mem_cons_self, hnew g hmem⟩
      · obtain ⟨b, hb, hr⟩ := hg.used g hmem
        exact ⟨b, List.mem_cons_of_mem _ hb, hr⟩
    · rw [hgr]
      exact List.subset_append_right _ _

lemma good_free (hb : b ∈ live) :
    ∃ h', free h b.addr = .ok h' ∧ Good h' (live.erase b) ∧ h'.groups ⊆ h.groups := by
  obtain ⟨h', g, hmem, hr, hf, hi, -, hcase⟩ := free_eq hg.inv hb
  refine ⟨h', hf, ⟨hi, fun g' hg' => ?_⟩, ?_⟩
  · have hg' : g' ∈ h'.groups := hg'
    have hother : g' ∈ h.groups → g' ≠ g → ∃ c ∈ live.erase b, pgRoundDown c.addr = g'.addr := by
      intro hold hne
      obtain ⟨c, hc, hrc⟩ := hg.used g' hold
      refine ⟨c, (List.mem_erase_of_ne fun he => hne ?_).mpr hc, hrc⟩
      subst he
      exact hg.inv.sound.group_unique hold hmem (hrc.symm.trans hr)
    rcases hcase with ⟨hgr, hsome⟩ | hgr
    · by_cases hgg : g' = g
      · exact hgg ▸ hsome
      · exact hother (hgr ▸ hg') hgg
    · rw [hgr] at hg'
      have hne := hg.inv.sound.groups_nodup.mem_erase_iff.mp hg'
      exact hother hne.2 hne.1
  · rcases hcase with ⟨hgr, -⟩ | hgr
    · rw [hgr]
      exact List.Subset.refl _
    · rw [hgr]
      exact List.erase_subset

lemma good_delist {p : Option Block} (hp : ∀ b ∈ p, b ∈ live) :
    ∃ h', free h (pointer p) = .ok h' ∧ Good h' (delist live p) ∧ h'.groups ⊆ h.groups := by
  cases p with
  | none => exact ⟨h, if_pos rfl, hg, List.Subset.refl _⟩
  | some b => exact good_free hg (hp b rfl)

lemma good_writes (hb : b ∈ live)
    {m : Memory} (hm : ∀ x, ¬ (b.addr ≤ x ∧ x < b.addr + b.size) → m x = h.mem x) :
    Good { h with mem := m } live := by
  obtain ⟨g, hmem, -, -, -, n, hn, hle⟩ := hg.inv.arena hb
  refine ⟨hg.inv.of_writes hmem hn fun x hx => hm x fun hin => hx ⟨hin.1, ?_⟩, hg.used⟩
  omega

lemma Good.addr_add_le (hb : b ∈ live) : b.addr + b.size ≤ 4294967296 := by
  obtain ⟨g, hmem, -, -, -, n, hn, hle⟩ := hg.inv.arena hb
  have hend := (hn.bounds (hg.inv.group hmem)).2.2
  have hhigh := (hg.inv.group hmem).high
  omega

omit hg in
lemma blockSize_big {g : PageGroup} (hok : g.Ok) (ha : arenaAt h.mem g.addr = ⟨arenaMagic, 0, g.cnt⟩) :
    blockSize h (g.addr + arenaSize) = .ok (pgSize * g.cnt - arenaSize) := by
  have hround : pgRoundDown (g.addr + arenaSize) = g.addr := pgRoundDown_add hok.aligned (by decide)
  have hofs : pgOfs (g.addr + arenaSize) = arenaSize := pgOfs_add hok.aligned (by decide)
  have hne : g.addr ≠ 0 := Nat.ne_of_gt hok.pos
  have hhigh := hok.high
  have hcnt := hok.cnt_pos
  have hw : wrap (wrap (pgSize * g.cnt) + 4294967296 - arenaSize) = pgSize * g.cnt - arenaSize := by
    simp only [wrap, pgSize, arenaSize] at *
    omega
  simp only [blockSize, blockToArena, hround, ha, hofs, assertThat_pos hne, assertThat_pos, bind_ok, if_true,
    pure_eq_ok, ne_eq, not_true_eq_false, if_false, hw]

lemma blockSize_eq (hb : b ∈ live) :
    ∃ g ∈ h.groups, ∃ n, BlockOf g (arenaAt h.mem g.addr).desc b.addr n ∧ b.size ≤ n ∧
      blockSize h b.addr = .ok n := by
  obtain ⟨g, hmem, -, hba, -, n, hn, hle⟩ := hg.inv.arena hb
  refine ⟨g, hmem, n, hn, hle, ?_⟩
  by_cases hd0 : (arenaAt h.mem g.addr).desc = 0
  · have hbig : (arenaAt h.mem g.addr).freeCnt = g.cnt := hg.inv.sound.big g hmem hd0
    have hmagic : (arenaAt h.mem g.addr).magic = arenaMagic := hg.inv.sound.magic g hmem
    obtain ⟨hp, hsize⟩ := hn.big_eq hd0
    rw [hp, hsize]
    exact blockSize_big (hg.inv.group hmem) (by rw [← hmagic, ← hd0, ← hbig])
  · obtain ⟨-, i, s, hs, hd, -⟩ := hg.inv.sound.small g hmem hd0
    have hd : (arenaAt h.mem g.addr).desc = descPtr i := hd
    obtain ⟨d, hderef, hsize, -⟩ := derefDesc_eq hg.inv.shape hs
    rw [hd] at hn
    unfold blockSize
    rw [hba, bind_ok]
    dsimp only
    rw [if_pos hd0, hd, hderef, bind_ok, hsize, hn.size_eq hs, pure_eq_ok]

omit hg in
lemma mem_enlist {p size : Nat} (hp : p ≠ 0) :
    (⟨p, size⟩ : Block) ∈ enlist p size live := by
  rw [enlist, if_neg hp]
  exact List.mem_cons_self

lemma good_calloc {a b : Nat}
    (hsize : wrap (a * b) < a ∨ wrap (a * b) < b ∨ wrap (a * b) + arenaSize ≤ 4294967296) (answer : Nat) :
    ∃ p h', calloc h a b answer = .ok (p, h') ∧ Good h' (enlist p (wrap (a * b)) live) ∧
      h.groups ⊆ h'.groups := by
  unfold calloc
  dsimp only
  by_cases hlt : wrap (a * b) < a ∨ wrap (a * b) < b
  · rw [if_pos hlt]
    exact ⟨0, h, pure_eq_ok _, hg, List.Subset.refl _⟩
  · obtain ⟨p, h', hm, hg', hsub⟩ := good_malloc hg (by omega : wrap (a * b) + arenaSize ≤ 4294967296) answer
    rw [if_neg hlt, hm, bind_ok]
    dsimp only
    by_cases hp : p = 0
    · rw [if_neg (not_not.mpr hp)]
      exact ⟨p, h', pure_eq_ok _, hg', hsub⟩
    · rw [if_pos hp]
      refine ⟨p, _, pure_eq_ok _, good_writes hg' (mem_enlist hp) fun x hx => ?_, hsub⟩
      rw [memset_apply _ _ _ _ _ (hg'.addr_add_le (mem_enlist hp)), if_neg hx]

lemma good_copy (hb : b ∈ live) (src : Nat) {n : Nat} (hn : n ≤ b.size) :
    Good { h with mem := memcpy h.mem b.addr src n } live := by
  have hend := hg.addr_add_le hb
  refine good_writes hg hb fun x hx => memcpy_of_notMem _ _ _ _ _ (by omega) fun hin => hx ?_
  exact ⟨hin.1, by omega⟩

lemma good_realloc {old : Option Block} (hold : ∀ b ∈ old, b ∈ live) {newSize answer : Nat}
    (hsize : newSize + arenaSize ≤ 4294967296) : ∃ p h', realloc h (pointer old) newSize answer = .ok (p, h') ∧
      Good h' (if newSize = 0 then delist live old
        else if p = 0 then live else ⟨p, newSize⟩ :: delist live old) ∧ Regroups h h' := by
  unfold realloc
  by_cases hz : newSize = 0
  · obtain ⟨h', hf, hg', hsub⟩ := good_delist hg hold
    simp only [if_pos hz, hf, bind_ok]
    exact ⟨0, h', pure_eq_ok _, hg', h.groups, hg.inv.sound.separate, List.Subset.refl _, hsub⟩
  · obtain ⟨p, h₁, hm, hg₁, hsub₁⟩ := good_malloc hg hsize answer
    have hsep := hg₁.inv.sound.separate
    simp only [if_neg hz, hm, bind_ok]
    by_cases hboth : pointer old ≠ 0 ∧ p ≠ 0
    · rw [if_pos hboth]
      obtain ⟨b, rfl⟩ : ∃ b, old = some b := by
        cases old with
        | none => exact (hboth.1 rfl).elim
        | some b => exact ⟨b, rfl⟩
      have hnew : (⟨p, newSize⟩ : Block) ∈ enlist p newSize live := mem_enlist hboth.2
      have henlist : enlist p newSize live = ⟨p, newSize⟩ :: live := if_neg hboth.2
      have hb : b ∈ enlist p newSize live := henlist ▸ List.mem_cons_of_mem _ (hold b rfl)
      obtain ⟨g, -, n, -, -, hbs⟩ := blockSize_eq hg₁ hb
      have hmin : (if newSize < n then newSize else n) ≤ newSize := by
        split <;> omega
      have hg₂ := good_copy hg₁ hnew b.addr hmin
      obtain ⟨h', hf, hg', hsub⟩ := good_free hg₂ hb
      have hne : b ≠ ⟨p, newSize⟩ := by
        rintro rfl
        have hnd := hg₁.inv.live_nodup
        rw [henlist] at hnd
        exact (List.nodup_cons.mp hnd).1 (hold _ rfl)
      rw [henlist, List.erase_cons_tail (by simpa using Ne.symm hne)] at hg'
      simp only [pointer, hbs, bind_ok, hf]
      refine ⟨p, h', pure_eq_ok _, ?_, h₁.groups, hsep, hsub₁, hsub⟩
      rw [if_neg hboth.2]
      exact hg'
    · rw [if_neg hboth]
      refine ⟨p, h₁, pure_eq_ok _, ?_, h₁.groups, hsep, hsub₁, List.Subset.refl _⟩
      by_cases hp : p = 0
      · rw [if_pos hp]
        rwa [enlist, if_pos hp] at hg₁
      · obtain rfl : old = none := by
          cases old with
          | none => rfl
          | some b =>
            obtain ⟨g, -, -, -, hne, -⟩ := hg.inv.arena (hold b rfl)
            exact (hboth ⟨hne, hp⟩).elim
        rw [if_neg hp]
        rwa [enlist, if_neg hp] at hg₁

end

lemma perform_eq (hg : Good x.heap x.live) (hv : c.Valid x)
    (hs : SizeOk c) :
    ∃ p h, perform x.heap c = .ok (p, h) ∧ Good h (account x.live p c) ∧ Regroups x.heap h := by
  have hsep := hg.inv.sound.separate
  cases c with
  | malloc size answer =>
    obtain ⟨p, h', he, hg', hsub⟩ := good_malloc hg hs answer
    exact ⟨p, h', he, hg', _, hg'.inv.sound.separate, hsub, List.Subset.refl _⟩
  | calloc a b answer =>
    obtain ⟨p, h', he, hg', hsub⟩ := good_calloc hg hs answer
    exact ⟨p, h', he, hg', _, hg'.inv.sound.separate, hsub, List.Subset.refl _⟩
  | realloc old newSize answer => exact good_realloc hg hv hs
  | free p =>
    obtain ⟨h', he, hg', hsub⟩ := good_delist hg hv
    refine ⟨0, h', ?_, hg', _, hsep, List.Subset.refl _, hsub⟩
    simp only [perform, he, bind_ok, pure_eq_ok]
  | store b ofs value =>
    refine ⟨0, _, rfl, good_writes hg hv.1 fun x hx => ?_, hg.regroups_self⟩
    have hlt := hv.2
    exact Function.update_of_ne (fun he => hx (by omega)) _ _

lemma next_eq_some (h : next x c = some y) :
    c.Valid x ∧ ∃ p, perform x.heap c = .ok (p, y.heap) ∧ y.live = account x.live p c := by
  rw [next] at h
  split at h
  · next hv =>
    split at h
    · next p h' he =>
      rw [Option.some.injEq] at h
      subst h
      exact ⟨hv, p, he, rfl⟩
    · simp at h
  · simp at h

lemma good_next (hg : Good x.heap x.live) (hs : SizeOk c)
    (h : next x c = some y) : Good y.heap y.live ∧ Regroups x.heap y.heap := by
  obtain ⟨hv, p, he, hl⟩ := next_eq_some h
  obtain ⟨p', h', he', hg', hr⟩ := perform_eq hg hv hs
  rw [he, Except.ok.injEq, Prod.mk.injEq] at he'
  obtain ⟨rfl, rfl⟩ := he'
  exact ⟨hl ▸ hg', hr⟩

lemma freeListOf_mallocInit (m : Memory) (i : Nat) : freeListOf (mallocInit m) i = [] := by
  have hall : ∀ d ∈ initDescs 10 16, d.freeList = [] := by decide
  rw [freeListOf, mallocInit]
  cases hd : (initDescs 10 16)[i]? with
  | none => rfl
  | some d => exact hall d (List.mem_of_getElem? hd)

lemma good_init (h : system.init x) : Good x.heap x.live := by
  obtain ⟨hl, m, hm⟩ := h
  rw [hl, hm]
  refine ⟨⟨rfl, by simp [ledger, mallocInit], by simp [ledger, mallocInit, Separate],
    by simp [ledger, mallocInit], by simp [ledger, mallocInit], by simp [ledger, mallocInit],
    by simp [ledger, Ledger.addrs], by simp [ledger], fun i => ?_, fun i p => ?_⟩, ?_⟩
  · simp [ledger, freeListOf_mallocInit]
  · simp only [ledger, freeListOf_mallocInit]
    simp [mallocInit]
  · simp [Ledger.Used, ledger, mallocInit]

lemma good_reachable (h : system.ReachableWhere (fun _ c => SizeOk c) x) :
    Good x.heap x.live :=
  h.invariant (fun _ => good_init) fun _ _ _ hg hs hn => (good_next hg hs hn).1

def blockRange (h : Heap) (b : Block) : Range :=
  ⟨b.addr, match blockSize h b.addr with
    | .ok n => n
    | .error _ => 0⟩

structure Books (x : Machine) : Prop where
  live_separate : Separate (blockRange x.heap) x.live
  live_header : ∀ b ∈ x.live, ∀ g ∈ x.heap.groups,
    (blockRange x.heap b).Apart ⟨g.addr, arenaSize⟩
  live_room : ∀ b ∈ x.live, b.size ≤ (blockRange x.heap b).size
  free_list : ∀ i d, x.heap.descs[i]? = some d → d.freeList.Nodup ∧ ∀ p, p ∈ d.freeList ↔
    (∃ g ∈ x.heap.groups, (arenaAt x.heap.mem g.addr).desc = descPtr i ∧
      ∃ j < d.blocksPerArena, p = g.addr + arenaSize + j * d.blockSize) ∧
    ∀ b ∈ x.live, b.addr ≠ p
  free_cnt : ∀ g ∈ x.heap.groups, ∀ i d, x.heap.descs[i]? = some d →
    (arenaAt x.heap.mem g.addr).desc = descPtr i →
    (arenaAt x.heap.mem g.addr).freeCnt = d.freeList.countP fun p => pgRoundDown p = g.addr
  used : ∀ g ∈ x.heap.groups, ∃ b ∈ x.live, pgRoundDown b.addr = g.addr

structure CallOk (x : Machine) (c : Call) : Prop where
  returns : ∃ r, perform x.heap c = .ok r
  given_back : ∀ y, next x c = some y → ∀ g ∈ x.heap.groups,
    (g ∉ y.heap.groups ↔ ∀ b ∈ y.live, pgRoundDown b.addr ≠ g.addr) ∧
    (g ∉ y.heap.groups → ∀ d ∈ y.heap.descs, ∀ p ∈ d.freeList, pgRoundDown p ≠ g.addr)

lemma Good.blockRange_spec (hg : Good h live)
    (hb : b ∈ live) : b.size ≤ (blockRange h b).size ∧ ∃ g ∈ h.groups,
      BlockOf g (arenaAt h.mem g.addr).desc b.addr (blockRange h b).size := by
  obtain ⟨g, hmem, n, hn, hle, hbs⟩ := blockSize_eq hg hb
  have hsize : (blockRange h b).size = n := by simp only [blockRange, hbs]
  exact ⟨hsize ▸ hle, g, hmem, hsize ▸ hn⟩

lemma Good.live_separate (hg : Good h live) :
    Separate (blockRange h) live := by
  refine hg.inv.live_nodup.imp_of_mem fun {b c} hb hc hne => ?_
  obtain ⟨-, g, hgm, hbg⟩ := hg.blockRange_spec hb
  obtain ⟨-, g', hgm', hcg⟩ := hg.blockRange_spec hc
  by_cases hgg : g = g'
  · subst hgg
    exact (hbg.eq_or_apart hcg).resolve_left fun he => hne (hg.inv.sound.live_inj hb hc he)
  · have hap := hg.inv.sound.separate.apart_of_ne hgm hgm' hgg
    have hleft := (hbg.within (hg.inv.group hgm)).apart hap
    exact ((hcg.within (hg.inv.group hgm')).apart hleft.symm).symm

lemma freeListOf_eq (hd : h.descs[i]? = some d) :
    freeListOf h i = d.freeList := by
  simp [freeListOf, hd]

lemma Inv.shapes_eq (hi : Inv h live)
    (hd : h.descs[i]? = some d) : shapes[i]? = some d.shape := by
  rw [← hi.shape, List.getElem?_map, hd]
  rfl

lemma Good.live_header (hg : Good h live)
    (hb : b ∈ live) {g : PageGroup} (hgm : g ∈ h.groups) :
    (blockRange h b).Apart ⟨g.addr, arenaSize⟩ := by
  obtain ⟨-, g', hgm', hbg⟩ := hg.blockRange_spec hb
  obtain ⟨h1, h2, h3⟩ := hbg.bounds (hg.inv.group hgm')
  by_cases hgg : g' = g
  · subst hgg
    exact .inr h1
  · have hap := (hbg.within (hg.inv.group hgm')).apart
      (hg.inv.sound.separate.apart_of_ne hgm' hgm hgg)
    have hcnt := (hg.inv.group hgm).cnt_pos
    simp only [Range.Apart, PageGroup.range, blockRange, pgSize, arenaSize] at *
    omega

lemma Good.mem_freeList (hg : Good h live)
    (hd : h.descs[i]? = some d) (p : Nat) : p ∈ d.freeList ↔
      (∃ g ∈ h.groups, (arenaAt h.mem g.addr).desc = descPtr i ∧
        ∃ j < d.blocksPerArena, p = g.addr + arenaSize + j * d.blockSize) ∧
      ∀ b ∈ live, b.addr ≠ p := by
  rw [← freeListOf_eq hd]
  refine (hg.inv.sound.free i p).trans (and_congr ?_ ?_)
  · refine exists_congr fun g => and_congr_right fun _ => and_congr_right fun _ => ?_
    rw [← mem_blocks (hg.inv.shapes_eq hd)]
    simp only [blocks, List.mem_map, List.mem_range, Desc.shape, eq_comm]
  · simp [ledger, Ledger.addrs]

lemma Good.books (hg : Good x.heap x.live) : Books x where
  live_separate := hg.live_separate
  live_header _ hb _ hgm := hg.live_header hb hgm
  live_room _ hb := (hg.blockRange_spec hb).1
  free_list i _ hd := ⟨freeListOf_eq hd ▸ hg.inv.sound.free_nodup i, hg.mem_freeList hd⟩
  free_cnt g hgm i d hd hdesc := by
    obtain ⟨-, k, s, -, hk, hcnt⟩ := hg.inv.sound.small g hgm
      (ne_of_eq_of_ne hdesc (Nat.succ_ne_zero i))
    obtain rfl : i = k := Nat.succ.inj (hdesc.symm.trans hk)
    rw [← freeListOf_eq hd]
    exact hcnt
  used := hg.used

lemma Good.given_back (hy : Good y.heap y.live) (hr : Regroups x.heap y.heap)
    {g : PageGroup} (hg : g ∈ x.heap.groups) (hok : g.Ok) :
    (g ∉ y.heap.groups ↔ ∀ b ∈ y.live, pgRoundDown b.addr ≠ g.addr) ∧
    (g ∉ y.heap.groups → ∀ d ∈ y.heap.descs, ∀ p ∈ d.freeList, pgRoundDown p ≠ g.addr) := by
  obtain ⟨gs, hsep, hx, hy'⟩ := hr
  have hgone : g ∉ y.heap.groups → ∀ g' ∈ y.heap.groups, g'.addr ≠ g.addr := by
    intro hno g' hg' he
    have hne : g ≠ g' := fun h => hno (h ▸ hg')
    have hap := hsep.apart_of_ne (hx hg) (hy' hg') hne
    have hcnt := hok.cnt_pos
    have hcnt' := (hy.inv.group hg').cnt_pos
    simp only [PageGroup.range, Range.Apart, pgSize] at hap
    omega
  refine ⟨⟨fun hno b hb he => ?_, fun hno hin => ?_⟩, fun hno d hd p hp => ?_⟩
  · exact hy.inv.sound.live_outside (hgone hno) (List.mem_map_of_mem hb) he
  · obtain ⟨b, hb, he⟩ := hy.used g hin
    exact hno b hb he
  · obtain ⟨i, hi⟩ := List.getElem?_of_mem hd
    rw [← freeListOf_eq hi] at hp
    exact hy.inv.sound.free_outside (hgone hno) hp

/-- In every run in which no size is within `sizeof (struct arena)` of the end of the address space,
the books are right and every valid call returns. -/
theorem books_when_sizes_ok {x : Machine} (h : system.ReachableWhere (fun _ c => SizeOk c) x) :
    Books x ∧ ∀ c : Call, c.Valid x → SizeOk c → CallOk x c := by
  have hg := good_reachable h
  refine ⟨hg.books, fun c hv hs => ⟨?_, fun y hy g hgm => ?_⟩⟩
  · obtain ⟨p, h', he, -⟩ := perform_eq hg hv hs
    exact ⟨_, he⟩
  · obtain ⟨hgy, hr⟩ := good_next hg hs hy
    exact hgy.given_back hr hgm (hg.inv.group hgm)

def bootRun (calls : List Call) : Option Machine :=
  system.exec ⟨mallocInit fun _ => 0, []⟩ calls

lemma exists_of_bootRun {C : Machine → Call → Prop} (calls : List Call) (p : Machine → Bool)
    (hc : ∀ c ∈ calls, ∀ x, C x c) (h : (bootRun calls).map p = some true) :
    ∃ x, system.ReachableWhere C x ∧ p x = true := by
  obtain ⟨x, hx, hp⟩ := Option.map_eq_some_iff.mp h
  exact ⟨x, System.exec_reachableWhere (.init ⟨rfl, _, rfl⟩) hc hx, hp⟩

lemma exists_two_blocks : ∃ x, system.ReachableWhere (fun _ c => SizeOk c) x ∧
    x.live = [⟨0xc020000c, 5000⟩, ⟨0xc010000c, 600⟩] := by
  obtain ⟨x, hr, hx⟩ := exists_of_bootRun [.malloc 600 0xc0100000, .calloc 10 500 0xc0200000]
    (fun x => x.live == [⟨0xc020000c, 5000⟩, ⟨0xc010000c, 600⟩]) (C := fun _ c => SizeOk c)
    (by simp [SizeOk, arenaSize, wrap]) (by decide +kernel)
  exact ⟨x, hr, by simpa using hx⟩

lemma exists_overrun : ∃ x, system.Reachable x ∧
    x.live = [⟨0xc020200c, 0xffffffff⟩, ⟨0xc020300c, 1024⟩] ∧
    free x.heap 0xc020300c = .error (.assertion .blockToArenaMagic) ∧
    realloc x.heap 0xc020300c 16 0xc0300000 = .error (.assertion .blockToArenaMagic) := by
  obtain ⟨x, hr, hx⟩ := exists_of_bootRun
    [.malloc 5000 0xc0200000, .malloc 1024 0xc0203000,
      .realloc (some ⟨0xc020000c, 5000⟩) 0xffffffff 0xc0202000]
    (fun x => x.live == [⟨0xc020200c, 0xffffffff⟩, ⟨0xc020300c, 1024⟩] &&
      (panicOf (free x.heap 0xc020300c) == some (.assertion .blockToArenaMagic) &&
        panicOf (realloc x.heap 0xc020300c 16 0xc0300000) == some (.assertion .blockToArenaMagic)))
    (C := fun _ _ => True) (fun _ _ _ => trivial) (by decide +kernel)
  simp only [Bool.and_eq_true, beq_iff_eq] at hx
  exact ⟨x, hr, hx.1, eq_error_of_panicOf hx.2.1, eq_error_of_panicOf hx.2.2⟩

theorem books_after_calls :
    ∃ x, system.ReachableWhere (fun _ c => SizeOk c) x ∧
      x.live = [⟨0xc020000c, 5000⟩, ⟨0xc010000c, 600⟩] ∧ Books x ∧
      CallOk x (.free (some ⟨0xc010000c, 600⟩)) := by
  obtain ⟨x, hr, hlive⟩ := exists_two_blocks
  have hb := books_when_sizes_ok hr
  refine ⟨x, hr, hlive, hb.1, hb.2 _ ?_ trivial⟩
  simp [Call.Valid, hlive]

theorem realloc_overruns_arena :
    ∃ x, system.Reachable x ∧ x.live = [⟨0xc020200c, 0xffffffff⟩, ⟨0xc020300c, 1024⟩] ∧
      free x.heap 0xc020300c = .error (.assertion .blockToArenaMagic) := by
  obtain ⟨x, hr, hlive, hfree, -⟩ := exists_overrun
  exact ⟨x, hr, hlive, hfree⟩

end Pintos.Malloc
