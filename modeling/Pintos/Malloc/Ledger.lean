import Mathlib.Data.List.Nodup
import Mathlib.Data.List.Perm.Subperm
import Pintos.Malloc.Arenas

/-! The books of the block allocator: which blocks are live, which are free, and in which arena. -/

namespace Pintos.Malloc

open Pintos.Foundation Pintos.Kernel Function

variable {a : Nat}

structure Block where
  addr : Nat
  size : Nat
  deriving DecidableEq, Repr

def Desc.shape (d : Desc) : Nat × Nat := (d.blockSize, d.blocksPerArena)

def shapes : List (Nat × Nat) := (initDescs 10 16).map Desc.shape

variable {k : Nat} {s : Nat × Nat}

lemma shapes_bounds (h : s ∈ shapes) :
    16 ≤ s.1 ∧ s.1 ≤ 1024 ∧ 0 < s.2 ∧ arenaSize + s.2 * s.1 ≤ pgSize := by
  have hall : ∀ s ∈ shapes, 16 ≤ s.1 ∧ s.1 ≤ 1024 ∧ 0 < s.2 ∧ arenaSize + s.2 * s.1 ≤ pgSize := by
    decide
  exact hall s h

structure PageGroup.Ok (g : PageGroup) : Prop where
  pos : 0 < g.addr
  cnt_pos : 0 < g.cnt
  aligned : g.addr % pgSize = 0
  high : g.addr + pgSize * g.cnt ≤ 4294967296

/-- In an arena whose header points to `desc`, a block of `n` bytes starts at `p`. -/
inductive BlockOf (g : PageGroup) : Nat → Nat → Nat → Prop
  | big : BlockOf g 0 (g.addr + arenaSize) (pgSize * g.cnt - arenaSize)
  | small {i j : Nat} {s : Nat × Nat} : shapes[i]? = some s → j < s.2 →
      BlockOf g (descPtr i) (g.addr + arenaSize + j * s.1) s.1

def blocks (g : PageGroup) (s : Nat × Nat) : List Nat :=
  (List.range s.2).map fun j => g.addr + arenaSize + j * s.1

structure Ledger where
  groups : List PageGroup
  header : PageGroup → Arena
  free : Nat → List Nat
  live : List Block

def Ledger.addrs (L : Ledger) : List Nat := L.live.map Block.addr

structure Ledger.Sound (L : Ledger) : Prop where
  group : ∀ g ∈ L.groups, g.Ok
  separate : Separate PageGroup.range L.groups
  magic : ∀ g ∈ L.groups, (L.header g).magic = arenaMagic
  big : ∀ g ∈ L.groups, (L.header g).desc = 0 → (L.header g).freeCnt = g.cnt
  small : ∀ g ∈ L.groups, (L.header g).desc ≠ 0 → g.cnt = 1 ∧ ∃ i s, shapes[i]? = some s ∧
    (L.header g).desc = descPtr i ∧
    (L.header g).freeCnt = (L.free i).countP fun p => pgRoundDown p = g.addr
  addrs_nodup : L.addrs.Nodup
  live : ∀ b ∈ L.live, ∃ g ∈ L.groups, ∃ n, BlockOf g (L.header g).desc b.addr n ∧ b.size ≤ n
  free_nodup : ∀ i, (L.free i).Nodup
  free : ∀ i p, p ∈ L.free i ↔
    (∃ g ∈ L.groups, (L.header g).desc = descPtr i ∧ ∃ n, BlockOf g (descPtr i) p n) ∧ p ∉ L.addrs

def Ledger.Used (L : Ledger) : Prop := ∀ g ∈ L.groups, ∃ b ∈ L.live, pgRoundDown b.addr = g.addr

lemma pgRoundDown_add (ha : a % pgSize = 0) (hk : k < pgSize) : pgRoundDown (a + k) = a := by
  simp only [pgRoundDown, pgSize] at *
  omega

lemma pgOfs_add (ha : a % pgSize = 0) (hk : k < pgSize) : pgOfs (a + k) = k := by
  simp only [pgOfs, pgSize] at *
  omega

lemma mul_add_le {j : Nat} (h : j < k) (n : Nat) : j * n + n ≤ k * n := by
  have hmul : (j + 1) * n ≤ k * n := Nat.mul_le_mul_right n h
  rwa [Nat.add_mul, Nat.one_mul] at hmul

namespace BlockOf

variable {g : PageGroup} {desc p n : Nat}

lemma offset_le {s : Nat × Nat} {i j : Nat} (hs : shapes[i]? = some s) (hj : j < s.2) :
    arenaSize + j * s.1 + s.1 ≤ pgSize := by
  obtain ⟨-, -, -, hle⟩ := shapes_bounds (List.mem_of_getElem? hs)
  have hmul := mul_add_le hj s.1
  omega

variable (h : BlockOf g desc p n)

include h

lemma bounds (hg : g.Ok) : g.addr + arenaSize ≤ p ∧ 0 < n ∧ p + n ≤ g.addr + pgSize * g.cnt := by
  have hcnt : pgSize * 1 ≤ pgSize * g.cnt := Nat.mul_le_mul_left _ hg.cnt_pos
  cases h with
  | big =>
    simp only [arenaSize, pgSize] at *
    omega
  | small hs hj =>
    have hle := offset_le hs hj
    obtain ⟨hlow, -⟩ := shapes_bounds (List.mem_of_getElem? hs)
    omega

lemma pgRoundDown_eq (hg : g.Ok) : pgRoundDown p = g.addr := by
  cases h with
  | big => exact pgRoundDown_add hg.aligned (by decide)
  | small hs hj =>
    have hle := offset_le hs hj
    obtain ⟨hlow, -⟩ := shapes_bounds (List.mem_of_getElem? hs)
    rw [Nat.add_assoc]
    exact pgRoundDown_add hg.aligned (by omega)

lemma within (hg : g.Ok) : (⟨p, n⟩ : Range).Within g.range := by
  obtain ⟨h1, h2, h3⟩ := h.bounds hg
  simp only [PageGroup.range, Range.Within]
  omega

omit h in
lemma size_eq {i : Nat} {s : Nat × Nat} (h : BlockOf g (descPtr i) p n)
    (hs : shapes[i]? = some s) : n = s.1 := by
  generalize hd : descPtr i = d at h
  cases h with
  | big => simp [descPtr] at hd
  | @small i' j' s' hs' hj' =>
    obtain rfl : i = i' := Nat.succ.inj hd
    rw [hs, Option.some.injEq] at hs'
    rw [hs']

lemma big_eq (hd : desc = 0) : p = g.addr + arenaSize ∧ n = pgSize * g.cnt - arenaSize := by
  cases h with
  | big => exact ⟨rfl, rfl⟩
  | small _ _ => simp [descPtr] at hd

lemma size_unique {m : Nat} (h' : BlockOf g desc p m) : n = m := by
  cases h with
  | big => exact (h'.big_eq rfl).2.symm
  | small hs _ => exact (h'.size_eq hs).symm

lemma eq_or_apart {q m : Nat} (h' : BlockOf g desc q m) : p = q ∨ (⟨p, n⟩ : Range).Apart ⟨q, m⟩ := by
  cases h with
  | big =>
    generalize hd : (0 : Nat) = d at h'
    cases h' with
    | big => exact .inl rfl
    | small _ _ => simp [descPtr] at hd
  | @small i j s hs hj =>
    generalize hd : descPtr i = d at h'
    cases h' with
    | big => simp [descPtr] at hd
    | @small i' j' s' hs' hj' =>
      obtain rfl : i = i' := by simpa [descPtr] using hd
      rw [hs, Option.some.injEq] at hs'
      subst hs'
      simp only [Range.Apart]
      rcases Nat.lt_trichotomy j j' with hlt | rfl | hlt
      · have hmul := mul_add_le hlt s.1
        omega
      · exact .inl rfl
      · have hmul := mul_add_le hlt s.1
        omega

end BlockOf

lemma mem_blocks {g : PageGroup} {i : Nat} (hs : shapes[i]? = some s) (p : Nat) :
    p ∈ blocks g s ↔ ∃ n, BlockOf g (descPtr i) p n := by
  simp only [blocks, List.mem_map, List.mem_range]
  constructor
  · rintro ⟨j, hj, rfl⟩
    exact ⟨s.1, .small hs hj⟩
  · rintro ⟨n, hn⟩
    generalize hd : descPtr i = d at hn
    cases hn with
    | big => simp [descPtr] at hd
    | @small i' j s' hs' hj =>
      obtain rfl : i = i' := by simpa [descPtr] using hd
      rw [hs, Option.some.injEq] at hs'
      subst hs'
      exact ⟨j, hj, rfl⟩

lemma blocks_nodup {g : PageGroup} {i : Nat} (hs : shapes[i]? = some s) :
    (blocks g s).Nodup := by
  obtain ⟨hlow, -⟩ := shapes_bounds (List.mem_of_getElem? hs)
  refine List.nodup_range.map fun j k he => ?_
  exact Nat.eq_of_mul_eq_mul_right (by omega : 0 < s.1) (by simpa using he)

namespace Ledger.Sound

variable {L : Ledger} {b : Block} {live : List Block} {i n p : Nat} {free : Nat → List Nat}
  {g : PageGroup} (h : L.Sound)

include h

lemma group_unique {g' : PageGroup} (hg : g ∈ L.groups) (hg' : g' ∈ L.groups)
    (he : g.addr = g'.addr) : g = g' := by
  by_contra hne
  have hpos := (h.group g hg).cnt_pos
  have hpos' := (h.group g' hg').cnt_pos
  have hap := h.separate.apart_of_ne hg hg' hne
  simp only [PageGroup.range, Range.Apart, pgSize] at hap
  omega

lemma header_apart {g' : PageGroup} (hg : g ∈ L.groups) (hg' : g' ∈ L.groups)
    (hne : g ≠ g') : g.addr + pgSize ≤ g'.addr ∨ g'.addr + pgSize ≤ g.addr := by
  have hpos := (h.group g hg).cnt_pos
  have hpos' := (h.group g' hg').cnt_pos
  have hap := h.separate.apart_of_ne hg hg' hne
  simp only [PageGroup.range, Range.Apart, pgSize] at *
  omega

lemma groups_nodup : L.groups.Nodup := by
  refine h.separate.imp_of_mem fun {g g'} hg hg' hap he => ?_
  subst he
  have hpos := (h.group g hg).cnt_pos
  simp only [PageGroup.range, Range.Apart, pgSize] at hap
  omega

lemma arena_of_free (hp : p ∈ L.free i) :
    ∃ g ∈ L.groups, (L.header g).desc = descPtr i ∧ pgRoundDown p = g.addr ∧
      ∃ n, BlockOf g (descPtr i) p n := by
  obtain ⟨⟨g, hg, hd, n, hb⟩, -⟩ := (h.free i p).mp hp
  exact ⟨g, hg, hd, hb.pgRoundDown_eq (h.group g hg), n, hb⟩

lemma desc_of_free (hp : p ∈ L.free i)
    (hg : g ∈ L.groups) (hr : pgRoundDown p = g.addr) : (L.header g).desc = descPtr i := by
  obtain ⟨g', hg', hd, hr', -⟩ := h.arena_of_free hp
  obtain rfl := h.group_unique hg hg' (hr.symm.trans hr')
  exact hd

lemma arena_of_live (hb : b ∈ L.live) : ∃ g ∈ L.groups, pgRoundDown b.addr = g.addr ∧
      ∃ n, BlockOf g (L.header g).desc b.addr n ∧ b.size ≤ n := by
  obtain ⟨g, hg, n, hn, hle⟩ := h.live b hb
  exact ⟨g, hg, hn.pgRoundDown_eq (h.group g hg), n, hn, hle⟩

lemma congr {header : PageGroup → Arena}
    (hh : ∀ g ∈ L.groups, header g = L.header g) (hf : ∀ i, free i = L.free i) :
    Ledger.Sound ⟨L.groups, header, free, L.live⟩ := by
  obtain rfl : free = L.free := funext hf
  refine ⟨h.group, h.separate, ?_, ?_, ?_, h.addrs_nodup, ?_, h.free_nodup, ?_⟩
  · intro g hg
    simpa only [hh g hg] using h.magic g hg
  · intro g hg
    simpa only [hh g hg] using h.big g hg
  · intro g hg
    simpa only [hh g hg] using h.small g hg
  · intro b hb
    obtain ⟨g, hg, n, hn⟩ := h.live b hb
    exact ⟨g, hg, n, by simpa only [hh g hg] using hn⟩
  · intro i p
    rw [h.free i p]
    refine and_congr_left fun _ => exists_congr fun g => and_congr_right fun hg => ?_
    simp only [hh g hg]

lemma addr_not_live (hb : b ∈ L.live) : b.addr ∉ L.free i :=
  fun hf => ((h.free i b.addr).mp hf).2 (List.mem_map_of_mem hb)

lemma live_inj {b' : Block} (hb : b ∈ L.live) (hb' : b' ∈ L.live) (he : b.addr = b'.addr) : b = b' :=
  List.inj_on_of_nodup_map h.addrs_nodup hb hb' he

section

variable (hg : g ∈ L.groups) (hd : (L.header g).desc = descPtr i)

include hg hd

lemma recount {list : List Nat}
    (hlist : list.Nodup) (hlive : (live.map Block.addr).Nodup)
    (hblock : ∀ b ∈ live, ∃ g ∈ L.groups, ∃ n, BlockOf g (L.header g).desc b.addr n ∧ b.size ≤ n)
    (hout : ∀ q, pgRoundDown q ≠ g.addr → (q ∈ live.map Block.addr ↔ q ∈ L.addrs)) (hcnt : ∀ a, a ≠ g.addr →
      list.countP (pgRoundDown · = a) = (L.free i).countP (pgRoundDown · = a))
    (hfree : ∀ q, q ∈ list ↔ (∃ g ∈ L.groups, (L.header g).desc = descPtr i ∧
      ∃ n, BlockOf g (descPtr i) q n) ∧ q ∉ live.map Block.addr) : Ledger.Sound ⟨L.groups,
      update L.header g { L.header g with freeCnt := list.countP (pgRoundDown · = g.addr) },
      update L.free i list, live⟩ := by
  have hdesc : ∀ g', (update L.header g { L.header g with
      freeCnt := list.countP (pgRoundDown · = g.addr) } g').desc = (L.header g').desc := by
    intro g'
    by_cases hgg : g' = g
    · subst hgg; simp
    · simp [update_of_ne hgg]
  refine ⟨h.group, h.separate, ?_, ?_, ?_, hlive, ?_, ?_, ?_⟩
  · intro g' hg'
    by_cases hgg : g' = g
    · subst hgg; simpa using h.magic g' hg'
    · simpa [update_of_ne hgg] using h.magic g' hg'
  · intro g' hg' hz
    have hgg : g' ≠ g := by
      rintro rfl
      simp [hd, descPtr] at hz
    simp only [update_of_ne hgg] at hz ⊢
    exact h.big g' hg' hz
  · intro g' hg' hz
    simp only [hdesc] at hz ⊢
    obtain ⟨hone, k, s, hs, hk, hfc⟩ := h.small g' hg' hz
    refine ⟨hone, k, s, hs, hk, ?_⟩
    by_cases hgg : g' = g
    · subst hgg
      obtain rfl : i = k := by simpa [descPtr, hd] using hk
      simp
    · have hne : g'.addr ≠ g.addr := fun he => hgg (h.group_unique hg' hg he)
      rw [update_of_ne hgg, hfc]
      by_cases hki : k = i
      · subst hki
        rw [update_self, hcnt _ hne]
      · rw [update_of_ne hki]
  · simpa only [hdesc] using hblock
  · intro k
    by_cases hki : k = i
    · subst hki; simpa using hlist
    · simpa [update_of_ne hki] using h.free_nodup k
  · intro k q
    simp only [hdesc]
    by_cases hki : k = i
    · subst hki
      rw [update_self]
      exact hfree q
    · rw [update_of_ne hki, h.free k q]
      refine and_congr_right fun ⟨g', hg', hd', m, hm⟩ => not_congr (hout q ?_).symm
      rw [hm.pgRoundDown_eq (h.group g' hg')]
      intro he
      obtain rfl := h.group_unique hg' hg he
      exact hki (by simpa [descPtr, hd] using hd'.symm)

lemma take {rest : List Nat} (hf : L.free i = p :: rest) {size : Nat} (hp : BlockOf g (descPtr i) p n)
    (hsize : size ≤ n) :
    Ledger.Sound ⟨L.groups,
      update L.header g { L.header g with freeCnt := rest.countP (pgRoundDown · = g.addr) },
      update L.free i rest, ⟨p, size⟩ :: L.live⟩ := by
  have hnew : p ∉ L.addrs := ((h.free i p).mp (hf ▸ List.mem_cons_self)).2
  have hnodup : (p :: rest).Nodup := hf ▸ h.free_nodup i
  have hr := hp.pgRoundDown_eq (h.group g hg)
  refine h.recount hg hd (List.nodup_cons.mp hnodup).2 ?_ ?_ ?_ ?_ ?_
  · exact List.nodup_cons.mpr ⟨hnew, h.addrs_nodup⟩
  · intro b hb
    rcases List.mem_cons.mp hb with rfl | hb
    · exact ⟨g, hg, n, hd ▸ hp, hsize⟩
    · exact h.live b hb
  · intro q hq
    have hne : q ≠ p := fun he => hq (he ▸ hr)
    simp [hne, Ledger.addrs]
  · intro a ha
    have hne : pgRoundDown p ≠ a := fun he => ha (he.symm.trans hr)
    simp [hf, hne]
  · intro q
    have hq := h.free i q
    rw [hf, List.mem_cons] at hq
    simp only [List.map_cons, List.mem_cons, not_or]
    constructor
    · intro hrest
      obtain ⟨h1, h2⟩ := hq.mp (.inr hrest)
      exact ⟨h1, fun he => (List.nodup_cons.mp hnodup).1 (he ▸ hrest), h2⟩
    · rintro ⟨h1, hne, h2⟩
      exact (hq.mpr ⟨h1, h2⟩).resolve_left hne

lemma give (hb : b ∈ L.live) (hp : BlockOf g (descPtr i) b.addr n) : Ledger.Sound ⟨L.groups, update L.header g
        { L.header g with freeCnt := (b.addr :: L.free i).countP (pgRoundDown · = g.addr) },
      update L.free i (b.addr :: L.free i), L.live.erase b⟩ := by
  have hr := hp.pgRoundDown_eq (h.group g hg)
  have hadd : ∀ q, q ∈ (L.live.erase b).map Block.addr ↔ q ∈ L.addrs ∧ q ≠ b.addr := by
    intro q
    simp only [List.mem_map, Ledger.addrs]
    constructor
    · rintro ⟨c, hc, rfl⟩
      have hnd := h.addrs_nodup.of_map.mem_erase_iff.mp hc
      exact ⟨⟨c, hnd.2, rfl⟩, fun he => hnd.1 (h.live_inj hnd.2 hb he)⟩
    · rintro ⟨⟨c, hc, rfl⟩, hne⟩
      exact ⟨c, (List.mem_erase_of_ne fun he => hne (congrArg Block.addr he)).mpr hc, rfl⟩
  refine h.recount hg hd (List.nodup_cons.mpr ⟨h.addr_not_live hb, h.free_nodup i⟩) ?_ ?_ ?_ ?_ ?_
  · exact h.addrs_nodup.sublist (List.erase_sublist.map _)
  · exact fun c hc => h.live c (List.mem_of_mem_erase hc)
  · intro q hq
    rw [hadd]
    exact and_iff_left fun he => hq (he ▸ hr)
  · intro a ha
    have hne : pgRoundDown b.addr ≠ a := fun he => ha (he.symm.trans hr)
    simp [hne]
  · intro q
    rw [hadd, List.mem_cons, h.free i q]
    constructor
    · rintro (rfl | ⟨h1, h2⟩)
      · exact ⟨⟨g, hg, hd, n, hp⟩, fun he => he.2 rfl⟩
      · exact ⟨h1, fun he => h2 he.1⟩
    · rintro ⟨h1, h2⟩
      by_cases he : q = b.addr
      · exact .inl he
      · exact .inr ⟨h1, fun hq => h2 ⟨hq, he⟩⟩

lemma free_filter (hs : shapes[i]? = some s) (p : Nat) :
    p ∈ (L.free i).filter (pgRoundDown · = g.addr) ↔ p ∈ blocks g s ∧ p ∉ L.addrs := by
  rw [List.mem_filter, h.free i p, mem_blocks hs, decide_eq_true_eq]
  constructor
  · rintro ⟨⟨⟨g', hg', -, n, hn⟩, hp⟩, hr⟩
    obtain rfl := h.group_unique hg hg' (hr.symm.trans (hn.pgRoundDown_eq (h.group g' hg')))
    exact ⟨⟨n, hn⟩, hp⟩
  · rintro ⟨⟨n, hn⟩, hp⟩
    exact ⟨⟨⟨g, hg, hd, n, hn⟩, hp⟩, hn.pgRoundDown_eq (h.group g hg)⟩

lemma count_le (hs : shapes[i]? = some s) :
    (L.free i).countP (pgRoundDown · = g.addr) ≤ s.2 ∧
      (s.2 ≤ (L.free i).countP (pgRoundDown · = g.addr) ↔
        ∀ b ∈ L.live, pgRoundDown b.addr ≠ g.addr) := by
  have hmem := h.free_filter hg hd hs
  have hlen : (blocks g s).length = s.2 := by simp [blocks]
  have hsub := ((h.free_nodup i).filter (pgRoundDown · = g.addr)).subperm
    fun p hp => ((hmem p).mp hp).1
  rw [List.countP_eq_length_filter, ← hlen]
  refine ⟨hsub.length_le, fun hle b hb hr => ?_, fun hno => ?_⟩
  · obtain ⟨g', hg', hr', n, hn, -⟩ := h.arena_of_live hb
    obtain rfl := h.group_unique hg hg' (hr.symm.trans hr')
    have hin : b.addr ∈ blocks g s := (mem_blocks hs _).mpr ⟨n, hd ▸ hn⟩
    exact ((hmem _).mp ((hsub.perm_of_length_le hle).mem_iff.mpr hin)).2 (List.mem_map_of_mem hb)
  · refine ((blocks_nodup hs).subperm fun p hp => (hmem p).mpr ⟨hp, fun hl => ?_⟩).length_le
    obtain ⟨b, hb, rfl⟩ := List.mem_map.mp hl
    obtain ⟨n, hn⟩ := (mem_blocks hs _).mp hp
    exact hno b hb (hn.pgRoundDown_eq (h.group g hg))

lemma give_le (hb : b ∈ L.live) (hs : shapes[i]? = some s) (hp : BlockOf g (descPtr i) b.addr n) :
    (b.addr :: L.free i).countP (pgRoundDown · = g.addr) ≤ s.2 := by
  have hle := ((h.give hg hd hb hp).count_le hg (by simpa using hd) hs).1
  simpa only [update_self] using hle

end

lemma drop (hg : g ∈ L.groups) (hsub : live.Sublist L.live)
    (hlive : ∀ b, b ∈ live ↔ b ∈ L.live ∧ pgRoundDown b.addr ≠ g.addr) :
    Ledger.Sound ⟨L.groups.erase g, L.header,
      fun i => (L.free i).filter (pgRoundDown · ≠ g.addr), live⟩ := by
  have hmem : ∀ g', g' ∈ L.groups.erase g ↔ g' ≠ g ∧ g' ∈ L.groups := fun g' =>
    h.groups_nodup.mem_erase_iff
  have haddr : ∀ g' ∈ L.groups, g' ≠ g → g'.addr ≠ g.addr := fun g' hg' hne he =>
    hne (h.group_unique hg' hg he)
  refine ⟨?_, h.separate.erase g, ?_, ?_, ?_, ?_, ?_, ?_, ?_⟩
  · exact fun g' hg' => h.group g' (List.mem_of_mem_erase hg')
  · exact fun g' hg' => h.magic g' (List.mem_of_mem_erase hg')
  · exact fun g' hg' => h.big g' (List.mem_of_mem_erase hg')
  · intro g' hg' hz
    obtain ⟨hne, hg'⟩ := (hmem g').mp hg'
    obtain ⟨hone, i, s, hs, hi, hcnt⟩ := h.small g' hg' hz
    refine ⟨hone, i, s, hs, hi, ?_⟩
    rw [hcnt, List.countP_filter]
    apply List.countP_congr
    intro p hp
    have hne' := haddr g' hg' hne
    simp only [decide_eq_true_eq, Bool.and_eq_true]
    exact ⟨fun he => ⟨he, he ▸ hne'⟩, fun he => he.1⟩
  · exact h.addrs_nodup.sublist (hsub.map _)
  · intro b hb
    obtain ⟨hb, hne⟩ := (hlive b).mp hb
    obtain ⟨g', hg', hr, n, hn⟩ := h.arena_of_live hb
    exact ⟨g', (hmem g').mpr ⟨fun he => hne (he ▸ hr), hg'⟩, n, hn⟩
  · exact fun i => (h.free_nodup i).filter _
  · intro i p
    simp only [List.mem_filter, h.free i p, decide_eq_true_eq, Ledger.addrs, List.mem_map, hlive]
    constructor
    · rintro ⟨⟨⟨g', hg', hd, n, hn⟩, hp⟩, hr⟩
      refine ⟨⟨g', (hmem g').mpr ⟨?_, hg'⟩, hd, n, hn⟩, ?_⟩
      · rintro rfl
        exact hr (hn.pgRoundDown_eq (h.group _ hg'))
      · rintro ⟨b, ⟨hb, -⟩, rfl⟩
        exact hp ⟨b, hb, rfl⟩
    · rintro ⟨⟨g', hg', hd, n, hn⟩, hp⟩
      obtain ⟨hne, hg'⟩ := (hmem g').mp hg'
      have hr : pgRoundDown p ≠ g.addr := by
        rw [hn.pgRoundDown_eq (h.group g' hg')]
        exact haddr g' hg' hne
      refine ⟨⟨⟨g', hg', hd, n, hn⟩, ?_⟩, hr⟩
      rintro ⟨b, hb, rfl⟩
      exact hp ⟨b, ⟨hb, hr⟩, rfl⟩

variable (hok : g.Ok) (hap : ∀ g' ∈ L.groups, g.range.Apart g'.range)

include hok hap

lemma fresh : ∀ g' ∈ L.groups, g'.addr ≠ g.addr := by
  intro g' hg' he
  have hpos := (h.group g' hg').cnt_pos
  have hpos' := hok.cnt_pos
  have hap := hap g' hg'
  simp only [PageGroup.range, Range.Apart, pgSize] at hap
  omega

omit hok hap in
lemma free_outside (ha : ∀ g ∈ L.groups, g.addr ≠ a) (hp : p ∈ L.free i) : pgRoundDown p ≠ a := by
  obtain ⟨g, hg, -, hr, -⟩ := h.arena_of_free hp
  exact hr ▸ ha g hg

omit hok hap in
lemma live_outside (ha : ∀ g ∈ L.groups, g.addr ≠ a) (hp : p ∈ L.addrs) : pgRoundDown p ≠ a := by
  obtain ⟨b, hb, rfl⟩ := List.mem_map.mp hp
  obtain ⟨g, hg, hr, -⟩ := h.arena_of_live hb
  exact hr ▸ ha g hg

lemma add {r : Arena} (hmagic : r.magic = arenaMagic) (hbig : r.desc = 0 → r.freeCnt = g.cnt)
    (hsmall : r.desc ≠ 0 → g.cnt = 1 ∧ ∃ i s, shapes[i]? = some s ∧ r.desc = descPtr i ∧
      r.freeCnt = (free i).countP (pgRoundDown · = g.addr)) (hcnt : ∀ i a, a ≠ g.addr →
      (free i).countP (pgRoundDown · = a) = (L.free i).countP (pgRoundDown · = a))
    (haddrs : (live.map Block.addr).Nodup)
    (hlive : ∀ b ∈ live, b ∈ L.live ∨ ∃ n, BlockOf g r.desc b.addr n ∧ b.size ≤ n)
    (hout : ∀ p, pgRoundDown p ≠ g.addr → (p ∈ live.map Block.addr ↔ p ∈ L.addrs))
    (hin : r.desc ≠ 0 → ∀ p ∈ live.map Block.addr, pgRoundDown p ≠ g.addr) (hnodup : ∀ i, (free i).Nodup)
    (hfree : ∀ i p, p ∈ free i ↔
      p ∈ L.free i ∨ (r.desc = descPtr i ∧ ∃ n, BlockOf g (descPtr i) p n)) :
    Ledger.Sound ⟨g :: L.groups, update L.header g r, free, live⟩ := by
  have hfresh := h.fresh hok hap
  have hhead : ∀ g' ∈ L.groups, update L.header g r g' = L.header g' := fun g' hg' =>
    update_of_ne (fun he => hfresh g' hg' (congrArg PageGroup.addr he)) _ _
  refine ⟨?_, h.separate.cons hap, ?_, ?_, ?_, haddrs, ?_, hnodup, ?_⟩
  · exact List.forall_mem_cons.mpr ⟨hok, h.group⟩
  · refine List.forall_mem_cons.mpr ⟨by simpa using hmagic, fun g' hg' => ?_⟩
    simpa only [hhead g' hg'] using h.magic g' hg'
  · refine List.forall_mem_cons.mpr ⟨by simpa using hbig, fun g' hg' => ?_⟩
    simpa only [hhead g' hg'] using h.big g' hg'
  · refine List.forall_mem_cons.mpr ⟨by simpa using hsmall, fun g' hg' => ?_⟩
    simpa only [hhead g' hg', hcnt _ _ (hfresh g' hg')] using h.small g' hg'
  · intro b hb
    rcases hlive b hb with hb | ⟨n, hn⟩
    · obtain ⟨g', hg', n, hn⟩ := h.live b hb
      exact ⟨g', List.mem_cons_of_mem _ hg', n, by simpa only [hhead g' hg'] using hn⟩
    · exact ⟨g, List.mem_cons_self, n, by simpa only [update_self] using hn⟩
  · intro i p
    rw [hfree, List.exists_mem_cons_iff]
    simp only [update_self]
    constructor
    · rintro (hp | ⟨hd, hn⟩)
      · obtain ⟨⟨g', hg', hd, hn⟩, hna⟩ := (h.free i p).mp hp
        refine ⟨.inr ⟨g', hg', by simpa only [hhead g' hg'] using hd, hn⟩, ?_⟩
        exact fun hl => hna ((hout p (h.free_outside hfresh hp)).mp hl)
      · refine ⟨.inl ⟨hd, hn⟩, fun hl => ?_⟩
        obtain ⟨n, hn⟩ := hn
        exact hin (by simp [hd, descPtr]) p hl (hn.pgRoundDown_eq hok)
    · rintro ⟨hcase | ⟨g', hg', hd, n, hn⟩, hna⟩
      · exact .inr hcase
      · have hr : pgRoundDown p ≠ g.addr := hn.pgRoundDown_eq (h.group g' hg') ▸ hfresh g' hg'
        refine .inl ((h.free i p).mpr ⟨⟨g', hg', by simpa only [hhead g' hg'] using hd, n, hn⟩, ?_⟩)
        exact fun hl => hna ((hout p hr).mpr hl)

lemma addSmall (hone : g.cnt = 1)
    (hs : shapes[i]? = some s) : Ledger.Sound ⟨g :: L.groups, update L.header g ⟨arenaMagic, descPtr i, s.2⟩,
      update L.free i (L.free i ++ blocks g s), L.live⟩ := by
  have hfresh := h.fresh hok hap
  have hnew : ∀ p ∈ blocks g s, pgRoundDown p = g.addr := by
    intro p hp
    obtain ⟨n, hn⟩ := (mem_blocks hs p).mp hp
    exact hn.pgRoundDown_eq hok
  refine h.add hok hap rfl (by simp [descPtr]) (fun _ => ⟨hone, i, s, hs, rfl, ?_⟩) ?_
    h.addrs_nodup (fun b hb => .inl hb) (fun p _ => Iff.rfl)
    (fun _ p hp => h.live_outside hfresh hp) ?_ ?_
  · have hzero : (L.free i).countP (pgRoundDown · = g.addr) = 0 := by
      rw [List.countP_eq_zero]
      exact fun p hp => by simpa using h.free_outside hfresh hp
    rw [update_self, List.countP_append, hzero, List.countP_eq_length.mpr (by simpa using hnew)]
    simp [blocks]
  · intro k a ha
    by_cases hki : k = i
    · subst hki
      have hzero : (blocks g s).countP (pgRoundDown · = a) = 0 := by
        rw [List.countP_eq_zero]
        exact fun p hp => by simpa [hnew p hp] using ha.symm
      rw [update_self, List.countP_append, hzero, Nat.add_zero]
    · rw [update_of_ne hki]
  · intro k
    by_cases hki : k = i
    · subst hki
      rw [update_self, List.nodup_append]
      refine ⟨h.free_nodup k, blocks_nodup hs, ?_⟩
      rintro p hp q hq rfl
      exact h.free_outside hfresh hp (hnew p hq)
    · rw [update_of_ne hki]
      exact h.free_nodup k
  · intro k p
    by_cases hki : k = i
    · subst hki
      rw [update_self, List.mem_append, mem_blocks hs]
      simp
    · rw [update_of_ne hki]
      simp [descPtr, Ne.symm hki]

lemma addBig {size : Nat} (hsize : size ≤ pgSize * g.cnt - arenaSize) :
    Ledger.Sound ⟨g :: L.groups, update L.header g ⟨arenaMagic, 0, g.cnt⟩, L.free,
      ⟨g.addr + arenaSize, size⟩ :: L.live⟩ := by
  have hfresh := h.fresh hok hap
  have hr : pgRoundDown (g.addr + arenaSize) = g.addr := (BlockOf.big (g := g)).pgRoundDown_eq hok
  have hnew : g.addr + arenaSize ∉ L.addrs := fun hp => h.live_outside hfresh hp hr
  refine h.add hok hap rfl (fun _ => rfl) (by simp) (fun _ _ _ => rfl) ?_ ?_ ?_ (by simp)
    h.free_nodup (by simp [descPtr])
  · exact List.nodup_cons.mpr ⟨hnew, h.addrs_nodup⟩
  · intro b hb
    rcases List.mem_cons.mp hb with rfl | hb
    · exact .inr ⟨_, .big, hsize⟩
    · exact .inl hb
  · intro p hp
    have hne : p ≠ g.addr + arenaSize := fun he => hp (he ▸ hr)
    simp [hne, Ledger.addrs]

end Ledger.Sound

end Pintos.Malloc
