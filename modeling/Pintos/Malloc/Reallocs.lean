import Pintos.Malloc.Runs

/-! The bytes of the blocks across the stages of `realloc`. -/

namespace Pintos.Malloc

open Pintos.Foundation Pintos.Kernel

variable {b c : Block} {h h' : Heap} {live : List Block}

lemma blockRange_eq {live' : List Block} (hg : Good h live) (hg' : Good h' live') (hc : c ∈ live)
    (hc' : c ∈ live') {g : PageGroup} (hgm : g ∈ h.groups)
    (hgm' : g ∈ h'.groups) (hr : pgRoundDown c.addr = g.addr)
    (hm : ∀ x, g.addr + 4 ≤ x → x < g.addr + 8 → h'.mem x = h.mem x) :
    blockRange h' c = blockRange h c := by
  obtain ⟨-, g₁, hg₁, hn⟩ := hg.blockRange_spec hc
  obtain ⟨-, g₂, hg₂, hn'⟩ := hg'.blockRange_spec hc'
  obtain rfl := hg.inv.sound.group_unique hg₁ hgm
    ((hn.pgRoundDown_eq (hg.inv.group hg₁)).symm.trans hr)
  obtain rfl := hg'.inv.sound.group_unique hg₂ hgm'
    ((hn'.pgRoundDown_eq (hg'.inv.group hg₂)).symm.trans hr)
  have hdesc : (arenaAt h'.mem g₂.addr).desc = (arenaAt h.mem g₂.addr).desc :=
    Memory.load_congr fun x hx hx' => hm x hx (by omega)
  rw [hdesc] at hn'
  have hsize : (blockRange h' c).size = (blockRange h c).size := hn'.size_unique hn
  exact congrArg (Range.mk c.addr) hsize

structure Keeps (h h' : Heap) (c : Block) : Prop where
  range : blockRange h' c = blockRange h c
  bytes : ∀ x, (blockRange h c).Mem x → h'.mem x = h.mem x

lemma Keeps.trans {h'' : Heap} (hk : Keeps h h' c) (hk' : Keeps h' h'' c) :
    Keeps h h'' c where
  range := hk'.range.trans hk.range
  bytes x hx := (hk'.bytes x (hk.range ▸ hx)).trans (hk.bytes x hx)

section

variable (hg : Good h live) (hb : b ∈ live)

include hg hb

lemma Good.arena : ∃ g ∈ h.groups, g.Ok ∧ pgRoundDown b.addr = g.addr ∧
      BlockOf g (arenaAt h.mem g.addr).desc b.addr (blockRange h b).size := by
  obtain ⟨-, g, hgm, hn⟩ := hg.blockRange_spec hb
  exact ⟨g, hgm, hg.inv.group hgm, hn.pgRoundDown_eq (hg.inv.group hgm), hn⟩

omit hg hb in
lemma malloc_keeps (hg : Good h live) {size answer p : Nat}
    (hsize : size + arenaSize ≤ 4294967296) (hm : malloc h size answer = .ok (p, h')) (hp : p ≠ 0) :
    Good h' (⟨p, size⟩ :: live) ∧ ∀ c ∈ live, Keeps h h' c := by
  obtain ⟨p', h₁, hm', hg', -⟩ := good_malloc hg hsize answer
  rw [hm, Except.ok.injEq, Prod.mk.injEq] at hm'
  obtain ⟨rfl, rfl⟩ := hm'
  rw [enlist, if_neg hp] at hg'
  refine ⟨hg', fun c hc => ?_⟩
  rcases malloc_cases hg.inv hsize answer with hnull | ⟨p', h₁, hm', -, -, new, hgr, -, hon⟩
  · rw [hm, Except.ok.injEq, Prod.mk.injEq] at hnull
    exact (hp hnull.1).elim
  · rw [hm, Except.ok.injEq, Prod.mk.injEq] at hm'
    obtain ⟨rfl, rfl⟩ := hm'
    have hc' : c ∈ (⟨p, size⟩ :: live : List Block) := List.mem_cons_of_mem _ hc
    obtain ⟨g, hgm, -, hr, -⟩ := hg.arena hc
    have hgm' : g ∈ h'.groups := hgr ▸ List.mem_append_right new hgm
    have hrange : blockRange h' c = blockRange h c := by
      refine blockRange_eq hg hg' hc hc' hgm hgm' hr fun x hx hx' => ?_
      -- the word of `desc` lies in the page of `g`, before the count
      have hout : ∀ g' ∈ h'.groups, g' ≠ g → x < g'.addr ∨ g'.addr + arenaSize ≤ x := by
        intro g' hg₁ hne
        have hap := hg'.inv.sound.header_apart hg₁ hgm' hne
        simp only [arenaSize, pgSize] at *
        omega
      refine hon x (fun g' hg₁ => ?_) fun g' hg₁ => ?_
      · by_cases hne : g' = g
        · subst hne
          exact .inl hx'
        · exact (hout g' (hgr ▸ List.mem_append_right new hg₁) hne).imp_left fun hlt => by omega
      · refine hout g' (hgr ▸ List.mem_append_left _ hg₁) ?_
        rintro rfl
        have hnd := hg'.inv.sound.groups_nodup
        change h'.groups.Nodup at hnd
        rw [hgr] at hnd
        exact (List.nodup_append.mp hnd).2.2 _ hg₁ _ hgm rfl
    refine ⟨hrange, fun x hx => ?_⟩
    have hhead : ∀ g' ∈ h'.groups, x < g'.addr ∨ g'.addr + arenaSize ≤ x := by
      intro g' hg₁
      have hap := hg'.live_header hc' hg₁
      rw [hrange] at hap
      simp only [Range.Apart, Range.Mem] at *
      omega
    refine hon x (fun g' hg₁ => ?_) fun g' hg₁ => hhead g' (hgr ▸ List.mem_append_left _ hg₁)
    exact (hhead g' (hgr ▸ List.mem_append_right _ hg₁)).imp_left fun hlt => by omega

lemma copy_keeps (hc : c ∈ live) (hne : c ≠ b) (src : Nat) {n : Nat} (hn : n ≤ b.size) :
    Keeps h { h with mem := memcpy h.mem b.addr src n } c := by
  have hend := hg.addr_add_le hb
  have hroom := (hg.blockRange_spec hb).1
  have hfar : ∀ x, ¬ (blockRange h b).Mem x →
      ({ h with mem := memcpy h.mem b.addr src n } : Heap).mem x = h.mem x := by
    intro x hx
    refine memcpy_of_notMem _ _ _ _ _ (by omega) fun hin => hx ?_
    simp only [blockRange, Range.Mem] at *
    omega
  obtain ⟨g, hgm, -, hr, -⟩ := hg.arena hc
  refine ⟨blockRange_eq hg (good_copy hg hb src hn) hc hc hgm hgm hr fun x hx hx' => ?_,
    fun x hx => ?_⟩
  · refine hfar x fun hin => (hg.live_header hb hgm).not_mem hin ?_
    simp only [Range.Mem, arenaSize]
    omega
  · exact hfar x ((hg.live_separate.apart_of_ne hc hb hne).not_mem hx)

lemma copy_bytes (hc : c ∈ live) (hne : c ≠ b) {n k : Nat} (hn : n ≤ b.size) (hn' : n ≤ (blockRange h c).size)
    (hk : k < n) : memcpy h.mem b.addr c.addr n (b.addr + k) = h.mem (c.addr + k) := by
  have hend := hg.addr_add_le hb
  have hroom := (hg.blockRange_spec hb).1
  have hap := hg.live_separate.apart_of_ne hb hc (Ne.symm hne)
  obtain ⟨g, -, hok, -, hnc⟩ := hg.arena hc
  have hhigh := hok.high
  have hlast := (hnc.bounds hok).2.2
  simp only [Range.Apart, blockRange] at *
  exact memcpy_of_mem _ (by omega) (by omega) (by omega) hk

lemma free_keeps (hf : free h b.addr = .ok h') : Good h' (live.erase b) ∧ ∀ c ∈ live.erase b, Keeps h h' c := by
  obtain ⟨h₁, hf', hg', -⟩ := good_free hg hb
  rw [hf, Except.ok.injEq] at hf'
  subst hf'
  refine ⟨hg', fun c hc => ?_⟩
  obtain ⟨h₁, g, hgm, hr, hf', -, ⟨n, hn, hsp⟩, hcase⟩ := free_eq hg.inv hb
  rw [hf, Except.ok.injEq] at hf'
  subst hf'
  have hcl : c ∈ live := List.mem_of_mem_erase hc
  have hne : c ≠ b := (hg.inv.live_nodup.mem_erase_iff.mp hc).1
  obtain ⟨gc, hgc, hokc, hrc, hnc⟩ := hg.arena hcl
  obtain ⟨gc', hgc', -, hrc', -⟩ := hg'.arena hc
  by_cases heq : gc = g
  · subst heq
    -- the arena of `c` is still there, so `free` has not given it back
    have hkept : h'.groups = h.groups := by
      rcases hcase with ⟨hgr, -⟩ | hgr
      · exact hgr
      · rw [hgr] at hgc'
        obtain ⟨hne', hold⟩ := hg.inv.sound.groups_nodup.mem_erase_iff.mp hgc'
        exact (hne' (hg.inv.sound.group_unique hold hgc (hrc'.symm.trans hrc))).elim
    obtain ⟨hlow, -⟩ := hn.bounds hokc
    have hap := (hnc.eq_or_apart hn).resolve_left fun he => hne (hg.inv.sound.live_inj hcl hb he)
    refine ⟨blockRange_eq hg hg' hcl hc hgc (hkept ▸ hgc) hrc fun x hx hx' => ?_, fun x hx => ?_⟩
    · exact hsp.kept hkept x (by simp only [arenaSize] at hlow; omega) (.inl hx')
    · have hhead := hg.live_header hcl hgc
      simp only [Range.Apart, Range.Mem, blockRange] at *
      exact hsp.kept hkept x (by omega) (by omega)
  · have hap := hg.inv.sound.separate.apart_of_ne hgc hgm heq
    have hgc₁ : gc ∈ h'.groups := by
      rcases hcase with ⟨hgr, -⟩ | hgr
      · exact hgr ▸ hgc
      · rw [hgr]
        exact hg.inv.sound.groups_nodup.mem_erase_iff.mpr ⟨heq, hgc⟩
    have hpos := hokc.cnt_pos
    refine ⟨blockRange_eq hg hg' hcl hc hgc hgc₁ hrc fun x hx hx' => ?_, fun x hx => ?_⟩
    · refine hsp.outside x (hap.not_mem ?_)
      simp only [PageGroup.range, Range.Mem, pgSize]
      omega
    · exact hsp.outside x (hap.not_mem ((hnc.within hokc).mem hx))

structure Freed (h : Heap) (live : List Block) (a : Nat) : Prop where
  dead : ∀ c ∈ live, c.addr ≠ a
  once : (∀ g ∈ h.groups, g.addr ≠ pgRoundDown a) ∨ ∃ (i : Nat) (d : Desc),
    h.descs[i]? = some d ∧ d.freeList.count a = 1 ∧
      ∀ (j : Nat) (e : Desc), h.descs[j]? = some e → j ≠ i → a ∉ e.freeList

lemma free_freed (hf : free h b.addr = .ok h') : Freed h' (live.erase b) b.addr := by
  obtain ⟨hg', -⟩ := free_keeps hg hb hf
  obtain ⟨h₁, g, hgm, hr, hf', -, ⟨n, hn, hsp⟩, hcase⟩ := free_eq hg.inv hb
  rw [hf, Except.ok.injEq] at hf'
  subst hf'
  have hok := hg.inv.group hgm
  have hdead : ∀ c ∈ live.erase b, c.addr ≠ b.addr := by
    intro c hc he
    obtain ⟨hne, hcl⟩ := hg.inv.live_nodup.mem_erase_iff.mp hc
    exact hne (hg.inv.sound.live_inj hcl hb he)
  refine ⟨hdead, ?_⟩
  rcases hcase with ⟨hgr, c, hc, hrc⟩ | hgr
  · right
    obtain ⟨hlow, -⟩ := hn.bounds hok
    have hgm' : g ∈ h'.groups := hgr ▸ hgm
    have hdesc : (arenaAt h'.mem g.addr).desc = (arenaAt h.mem g.addr).desc :=
      Memory.load_congr fun x hx hx' =>
        hsp.kept hgr x (by simp only [arenaSize] at hlow; omega) (.inl (by omega))
    rw [← hdesc] at hn
    by_cases hd0 : (arenaAt h'.mem g.addr).desc = 0
    · -- a big block is alone in its arena
      obtain ⟨g', hg₁, -, hr', hn'⟩ := hg'.arena hc
      obtain rfl := hg'.inv.sound.group_unique hg₁ hgm' (hr'.symm.trans hrc)
      exact (hdead c hc ((hn'.big_eq hd0).1.trans (hn.big_eq hd0).1.symm)).elim
    · obtain ⟨-, i, s, hs, hi, -⟩ := hg'.inv.sound.small g hgm' hd0
      have hi : (arenaAt h'.mem g.addr).desc = descPtr i := hi
      rw [← hg'.inv.shape, List.getElem?_map, Option.map_eq_some_iff] at hs
      obtain ⟨d, hd, -⟩ := hs
      have hmem : b.addr ∈ freeListOf h' i := by
        refine (hg'.inv.sound.free i b.addr).mpr ⟨⟨g, hgm', hi, n, hi ▸ hn⟩, fun hin => ?_⟩
        obtain ⟨c, hc, he⟩ := List.mem_map.mp hin
        exact hdead c hc he
      refine ⟨i, d, hd, ?_, fun j e he hji hin => ?_⟩
      · rw [← freeListOf_eq hd]
        exact List.count_eq_one_of_mem (hg'.inv.sound.free_nodup i) hmem
      · rw [← freeListOf_eq he] at hin
        have hj := hg'.inv.sound.desc_of_free hin hgm' hr
        exact hji (Nat.succ.inj (hj.symm.trans hi))
  · left
    intro g' hg₁ he
    rw [hgr] at hg₁
    obtain ⟨hne, hold⟩ := hg.inv.sound.groups_nodup.mem_erase_iff.mp hg₁
    exact hne (hg.inv.sound.group_unique hold hgm (he.trans hr))

structure Reallocated (h h' : Heap) (live : List Block) (b : Block) (p newSize : Nat) : Prop where
  copied : ∃ oldSize, blockSize h b.addr = .ok oldSize ∧
    ∀ k < min oldSize newSize, h'.mem (p + k) = h.mem (b.addr + k)
  freed : Freed h' (⟨p, newSize⟩ :: live.erase b) b.addr
  books : Books ⟨h', ⟨p, newSize⟩ :: live.erase b⟩
  kept : ∀ c ∈ live.erase b, Keeps h h' c

lemma realloc_spec
    {newSize : Nat} (hpos : 0 < newSize) (hsize : newSize + arenaSize ≤ 4294967296) (answer : Nat) :
    ∃ p h', realloc h b.addr newSize answer = .ok (p, h') ∧ (p = 0 → h' = h) ∧
      (p ≠ 0 → Reallocated h h' live b p newSize) := by
  obtain ⟨p, h₁, hm, -, -⟩ := good_malloc hg hsize answer
  obtain ⟨g, -, -, -, hb0, -⟩ := hg.inv.arena hb
  unfold realloc
  rw [if_neg (Nat.ne_of_gt hpos), hm, bind_ok]
  dsimp only
  by_cases hp : p = 0
  · rw [if_neg fun hboth => hboth.2 hp]
    refine ⟨p, h₁, pure_eq_ok _, fun _ => ?_, fun hne => (hne hp).elim⟩
    rcases malloc_cases hg.inv hsize answer with hnull | ⟨p', h', hm', hne, -⟩
    · rw [hm, Except.ok.injEq, Prod.mk.injEq] at hnull
      exact hnull.2
    · rw [hm, Except.ok.injEq, Prod.mk.injEq] at hm'
      exact (hne (hm'.1.symm.trans hp)).elim
  · obtain ⟨hg₁, hkeep₁⟩ := malloc_keeps hg hsize hm hp
    have hb₁ : b ∈ (⟨p, newSize⟩ :: live : List Block) := List.mem_cons_of_mem _ hb
    have hp₁ : (⟨p, newSize⟩ : Block) ∈ (⟨p, newSize⟩ :: live : List Block) := List.mem_cons_self
    have hnew : (⟨p, newSize⟩ : Block) ∉ live := (List.nodup_cons.mp hg₁.inv.live_nodup).1
    have hne : b ≠ ⟨p, newSize⟩ := fun he => hnew (he ▸ hb)
    obtain ⟨-, -, n, -, -, hbs⟩ := blockSize_eq hg hb
    obtain ⟨-, -, n', -, -, hbs'⟩ := blockSize_eq hg₁ hb₁
    have hrange : blockRange h b = ⟨b.addr, n⟩ := by simp only [blockRange, hbs]
    obtain rfl : n' = n := by
      have hr := congrArg Range.size ((hkeep₁ b hb).range.trans hrange)
      simpa only [blockRange, hbs'] using hr
    have hmin : (if newSize < n' then newSize else n') = min n' newSize := by
      split <;> omega
    have hle : min n' newSize ≤ newSize := Nat.min_le_right _ _
    have hg₂ := good_copy hg₁ hp₁ b.addr hle
    obtain ⟨h', hf, -, -⟩ := good_free hg₂ hb₁
    obtain ⟨hg', hkeep'⟩ := free_keeps hg₂ hb₁ hf
    have hfreed := free_freed hg₂ hb₁ hf
    have herase : (⟨p, newSize⟩ :: live : List Block).erase b = ⟨p, newSize⟩ :: live.erase b :=
      List.erase_cons_tail (by simpa using Ne.symm hne)
    rw [herase] at hg' hfreed hkeep'
    rw [if_pos ⟨hb0, hp⟩, hbs', bind_ok, hmin, hf, bind_ok]
    refine ⟨p, h', pure_eq_ok _, fun he => (hp he).elim, fun _ => ⟨⟨n', hbs, fun k hk => ?_⟩,
      hfreed, hg'.books, fun c hc => ?_⟩⟩
    · have hin : (blockRange { h₁ with mem := memcpy h₁.mem p b.addr (min n' newSize) }
          ⟨p, newSize⟩).Mem (p + k) := by
        have hroom := (hg₂.blockRange_spec hp₁).1
        exact ⟨Nat.le_add_right p k,
          Nat.add_lt_add_left (Nat.lt_of_lt_of_le (Nat.lt_of_lt_of_le hk hle) hroom) p⟩
      have hsize₁ : min n' newSize ≤ (blockRange h₁ b).size := by
        rw [(hkeep₁ b hb).range, hrange]
        exact Nat.min_le_left _ _
      rw [(hkeep' _ List.mem_cons_self).bytes _ hin, ← (hkeep₁ b hb).bytes]
      · exact copy_bytes hg₁ hp₁ hb₁ hne hle hsize₁ hk
      · rw [hrange]
        exact ⟨Nat.le_add_right _ _,
          Nat.add_lt_add_left (Nat.lt_of_lt_of_le hk (Nat.min_le_left _ _)) _⟩
    · have hcl := List.mem_of_mem_erase hc
      have hc' : c ∈ (⟨p, newSize⟩ :: live : List Block) := List.mem_cons_of_mem _ hcl
      have hcp : c ≠ ⟨p, newSize⟩ := fun he => hnew (he ▸ hcl)
      exact ((hkeep₁ c hcl).trans (copy_keeps hg₁ hp₁ hc' hcp b.addr hle)).trans
        (hkeep' c (List.mem_cons_of_mem _ hc))

end

theorem realloc_moves_block {x : Machine} (h : system.ReachableWhere (fun _ c => SizeOk c) x)
    {b : Block} (hb : b ∈ x.live) (newSize : UInt32) (hpos : 0 < newSize.toNat)
    (hsize : newSize.toNat + arenaSize + pgSize ≤ 4294967296) (answer : Nat) :
    ∃ p h', realloc x.heap b.addr newSize.toNat answer = .ok (p, h') ∧
      (p = 0 → h' = x.heap) ∧ (p ≠ 0 → Reallocated x.heap h' x.live b p newSize.toNat) :=
  realloc_spec (good_reachable h) hb hpos (by omega) answer

theorem realloc_moves_second_block :
    ∃ x p h', system.ReachableWhere (fun _ c => SizeOk c) x ∧
      x.live = [⟨0xc020000c, 5000⟩, ⟨0xc010000c, 600⟩] ∧
      realloc x.heap 0xc010000c 2000 0xc0300000 = .ok (p, h') ∧ (p = 0 → h' = x.heap) ∧
      (p ≠ 0 → Reallocated x.heap h' x.live ⟨0xc010000c, 600⟩ p 2000) := by
  obtain ⟨x, hr, hlive⟩ := exists_two_blocks
  have hb : (⟨0xc010000c, 600⟩ : Block) ∈ x.live := by simp [hlive]
  obtain ⟨p, h', he, hfail, hmove⟩ := realloc_moves_block hr hb 2000 (by decide) (by decide) 0xc0300000
  exact ⟨x, p, h', hr, hlive, he, hfail, hmove⟩

theorem realloc_after_overrun_panics :
    ∃ x, system.Reachable x ∧ (⟨0xc020300c, 1024⟩ : Block) ∈ x.live ∧
      realloc x.heap 0xc020300c 16 0xc0300000 = .error (.assertion .blockToArenaMagic) := by
  obtain ⟨x, hr, hlive, -, hrealloc⟩ := exists_overrun
  exact ⟨x, hr, by simp [hlive], hrealloc⟩

end Pintos.Malloc
