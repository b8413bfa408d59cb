import Pintos.Malloc.Ledger

/-! What `malloc` and `free` do to the books. -/

namespace Pintos.Malloc

open Pintos.Foundation Pintos.Kernel Function

variable {s : Nat × Nat} {i : Nat} {b : Block}

lemma arenaMagic_lt : arenaMagic < 4294967296 := by decide

lemma shapes_snd_lt (hs : shapes[i]? = some s) : s.2 < 4294967296 := by
  obtain ⟨hlow, -, -, hfit⟩ := shapes_bounds (List.mem_of_getElem? hs)
  have hmul := Nat.le_mul_of_pos_right s.2 (Nat.lt_of_lt_of_le (by decide : 0 < 16) hlow)
  simp only [pgSize] at hfit
  omega

section Headers

variable {m m' : Memory} {a b : Nat}

lemma arenaAt_congr (h : ∀ x, a ≤ x → x < a + arenaSize → m x = m' x) :
    arenaAt m a = arenaAt m' a := by
  simp only [arenaSize] at h
  rw [arenaAt, arenaAt, Memory.load_congr fun x h1 h2 => h x h1 (by omega),
    Memory.load_congr fun x h1 h2 => h x (by omega) (by omega),
    Memory.load_congr fun x h1 h2 => h x (by omega) (by omega)]

variable {r : Arena}

lemma putArena_of_notMem {x : Nat} (h : x < a ∨ a + arenaSize ≤ x) :
    putArena m a r x = m x := by
  simp only [arenaSize] at h
  rw [putArena, Memory.store_of_notMem _ (by omega), Memory.store_of_notMem _ (by omega),
    Memory.store_of_notMem _ (by omega)]

lemma arenaAt_putArena (h1 : r.magic < 4294967296) (h2 : r.desc < 4294967296)
    (h3 : r.freeCnt < 4294967296) : arenaAt (putArena m a r) a = r := by
  simp only [arenaAt, putArena]
  rw [Memory.load_store_of_disjoint _ (by omega), Memory.load_store_of_disjoint _ (by omega),
    Memory.load_store _ h1, Memory.load_store_of_disjoint _ (by omega), Memory.load_store _ h2,
    Memory.load_store _ h3]

lemma arenaAt_putArena_of_apart (h : a + arenaSize ≤ b ∨ b + arenaSize ≤ a) :
    arenaAt (putArena m a r) b = arenaAt m b :=
  arenaAt_congr fun x h1 h2 => putArena_of_notMem (by omega)

lemma arenaAt_store {v : Nat} (hv : v < 4294967296) :
    arenaAt (m.store (a + 8) v) a = { arenaAt m a with freeCnt := v } := by
  simp only [arenaAt]
  rw [Memory.load_store_of_disjoint _ (by omega), Memory.load_store_of_disjoint _ (by omega),
    Memory.load_store _ hv]

lemma arenaAt_store_of_apart {v : Nat} (h : a + arenaSize ≤ b ∨ b + arenaSize ≤ a) :
    arenaAt (m.store (a + 8) v) b = arenaAt m b := by
  simp only [arenaSize] at h
  exact arenaAt_congr fun x h1 h2 => m.store_of_notMem (by simp only [arenaSize] at h2; omega)

end Headers

def ledger (h : Heap) (live : List Block) : Ledger :=
  ⟨h.groups, fun g => arenaAt h.mem g.addr, freeListOf h, live⟩

structure Inv (h : Heap) (live : List Block) : Prop where
  shape : h.descs.map Desc.shape = shapes
  sound : (ledger h live).Sound

variable {live : List Block} {old : List PageGroup} {n p size x : Nat} {h : Heap} {g : PageGroup}

lemma Inv.group (hi : Inv h live) (hg : g ∈ h.groups) : g.Ok :=
  hi.sound.group g hg

section Descriptors

lemma derefDesc_eq (hsh : h.descs.map Desc.shape = shapes) (hs : shapes[i]? = some s) :
    ∃ d, derefDesc h (descPtr i) = .ok d ∧ d.blockSize = s.1 ∧ d.blocksPerArena = s.2 := by
  rw [← hsh, List.getElem?_map, Option.map_eq_some_iff] at hs
  obtain ⟨d, hd, rfl⟩ := hs
  exact ⟨d, by simp [derefDesc, descPtr, hd], rfl, rfl⟩

lemma setFreeList_shape (l : List Nat) :
    (setFreeList h i l).descs.map Desc.shape = h.descs.map Desc.shape := by
  refine List.ext_getElem? fun k => ?_
  simp only [setFreeList, List.getElem?_map, List.getElem?_modify]
  by_cases hk : i = k
  · subst hk
    cases h.descs[i]? <;> simp [Desc.shape]
  · simp [hk]

lemma freeListOf_setFreeList (hsh : h.descs.map Desc.shape = shapes) (hs : shapes[i]? = some s)
    (l : List Nat) : freeListOf (setFreeList h i l) = update (freeListOf h) i l := by
  rw [← hsh, List.getElem?_map, Option.map_eq_some_iff] at hs
  obtain ⟨d, hd, -⟩ := hs
  funext k
  by_cases hk : k = i
  · subst hk
    simp [freeListOf, setFreeList, hd]
  · rw [update_of_ne hk]
    simp [freeListOf, setFreeList, Ne.symm hk]

lemma setFreeList_setFreeList (l l' : List Nat) :
    setFreeList (setFreeList h i l) i l' = setFreeList h i l' := by
  simp only [setFreeList, List.modify_modify_eq]
  rfl

lemma setFreeList_freeListOf : setFreeList h i (freeListOf h i) = h := by
  have hd : h.descs.modify i (fun d => { d with freeList := freeListOf h i }) = h.descs := by
    refine List.ext_getElem? fun k => ?_
    rw [List.getElem?_modify]
    by_cases hk : i = k
    · subst hk
      cases hd : h.descs[i]? <;> simp [freeListOf, hd]
    · simp [hk]
  simp only [setFreeList, hd]

end Descriptors

section Arenas

lemma blockToArena_eq (hsh : h.descs.map Desc.shape = shapes) (hok : g.Ok)
    (hm : (arenaAt h.mem g.addr).magic = arenaMagic) {p n : Nat}
    (hb : BlockOf g (arenaAt h.mem g.addr).desc p n) : blockToArena h p = .ok g.addr := by
  have hr := hb.pgRoundDown_eq hok
  have hne : g.addr ≠ 0 := Nat.ne_of_gt hok.pos
  generalize hd : (arenaAt h.mem g.addr).desc = d at hb
  cases hb with
  | big =>
    have hofs : pgOfs (g.addr + arenaSize) = arenaSize := pgOfs_add hok.aligned (by decide)
    simp only [blockToArena, hr, assertThat_pos hne, assertThat_pos hm, assertThat_pos hofs, hd,
      bind_ok, if_true, pure_eq_ok]
  | @small i j s hs hj =>
    obtain ⟨d, hderef, hsize, -⟩ := derefDesc_eq hsh hs
    have hle := BlockOf.offset_le hs hj
    obtain ⟨hlow, -⟩ := shapes_bounds (List.mem_of_getElem? hs)
    have hofs : pgOfs (g.addr + arenaSize + j * s.1) = arenaSize + j * s.1 := by
      rw [Nat.add_assoc]
      exact pgOfs_add hok.aligned (by omega)
    have hal : wrap (pgOfs (g.addr + arenaSize + j * s.1) + 4294967296 - arenaSize) %
        d.blockSize = 0 := by
      have hw : wrap (arenaSize + j * s.1 + 4294967296 - arenaSize) = j * s.1 := by
        simp only [wrap, arenaSize, pgSize] at *
        omega
      rw [hofs, hw, hsize]
      exact Nat.mul_mod_left j s.1
    have hnz : descPtr i ≠ 0 := Nat.succ_ne_zero i
    unfold blockToArena
    dsimp only
    rw [hr, assertThat_pos hne, bind_ok, assertThat_pos hm, bind_ok, hd, if_neg hnz, hderef, bind_ok,
      assertThat_pos hal]
    rfl

structure Carved (h : Heap) (g : PageGroup) (i : Nat) (s : Nat × Nat) : Prop where
  ok : g.Ok
  entry : shapes[i]? = some s
  shape : h.descs.map Desc.shape = shapes
  magic : (arenaAt h.mem g.addr).magic = arenaMagic
  desc : (arenaAt h.mem g.addr).desc = descPtr i

lemma Carved.arenaToBlock_eq (hc : Carved h g i s) {j : Nat} (hj : j < s.2) :
    arenaToBlock h g.addr j = .ok (g.addr + arenaSize + j * s.1) := by
  obtain ⟨hok, hs, hsh, hm, hd⟩ := hc
  obtain ⟨d, hderef, hsize, hcnt⟩ := derefDesc_eq hsh hs
  have hne : g.addr ≠ 0 := Nat.ne_of_gt hok.pos
  have hle := BlockOf.offset_le hs hj
  obtain ⟨hlow, -⟩ := shapes_bounds (List.mem_of_getElem? hs)
  have hhigh := hok.high
  have hpos := hok.cnt_pos
  have hw : wrap (g.addr + arenaSize + j * s.1) = g.addr + arenaSize + j * s.1 := by
    apply wrap_of_lt
    simp only [pgSize] at *
    omega
  simp only [arenaToBlock, assertThat_pos hne, assertThat_pos hm, hd, hderef, bind_ok, hcnt, hsize,
    assertThat_pos hj, hw, pure_eq_ok]

lemma Carved.withFreeList (hc : Carved h g i s) (k : Nat) (list : List Nat) :
    Carved (setFreeList h k list) g i s :=
  ⟨hc.ok, hc.entry, (setFreeList_shape _).trans hc.shape, hc.magic, hc.desc⟩

lemma Carved.pushBlocks_eq (hc : Carved h g i s) (n idx : Nat) (hle : idx + n ≤ s.2) :
    pushBlocks i g.addr n idx h = .ok (setFreeList h i (freeListOf h i ++
      (List.range' idx n).map fun j => g.addr + arenaSize + j * s.1)) := by
  induction n generalizing idx h with
  | zero => simp [pushBlocks, setFreeList_freeListOf, pure_eq_ok]
  | succ n ih =>
    rw [pushBlocks, hc.arenaToBlock_eq (by omega), bind_ok, ih (hc.withFreeList _ _) (idx + 1) (by omega),
      setFreeList_setFreeList, freeListOf_setFreeList hc.shape hc.entry, update_self, List.range'_succ]
    simp

lemma Carved.removeBlocks_eq (hc : Carved h g i s) (n idx : Nat) (hle : idx + n ≤ s.2) :
    removeBlocks i g.addr n idx h = .ok (setFreeList h i ((freeListOf h i).diff
      ((List.range' idx n).map fun j => g.addr + arenaSize + j * s.1))) := by
  induction n generalizing idx h with
  | zero => simp [removeBlocks, setFreeList_freeListOf, pure_eq_ok]
  | succ n ih =>
    rw [removeBlocks, hc.arenaToBlock_eq (by omega), bind_ok, ih (hc.withFreeList _ _) (idx + 1) (by omega),
      setFreeList_setFreeList, freeListOf_setFreeList hc.shape hc.entry, update_self, List.range'_succ,
      List.map_cons, List.diff_cons]

end Arenas

lemma Inv.of_headers (hi : Inv h live) {m : Memory}
    (hm : ∀ g ∈ h.groups, arenaAt m g.addr = arenaAt h.mem g.addr) : Inv { h with mem := m } live :=
  ⟨hi.shape, hi.sound.congr hm fun _ => rfl⟩

section Pages

variable {answer cnt : Nat}

lemma pallocGetMultiple_cases (h : Heap) (answer cnt : Nat) :
    pallocGetMultiple h answer cnt = (0, h) ∨
      (pallocGetMultiple h answer cnt = (answer, { h with groups := ⟨answer, cnt⟩ :: h.groups }) ∧
        (⟨answer, cnt⟩ : PageGroup).Ok ∧
        ∀ g ∈ h.groups, (⟨answer, cnt⟩ : PageGroup).range.Apart g.range) := by
  by_cases hc : cnt ≠ 0 ∧ Allowed h.groups ⟨answer, cnt⟩
  · obtain ⟨hne, hpos, hal, hhigh, hap⟩ := hc
    exact .inr ⟨if_pos ⟨hne, hpos, hal, hhigh, hap⟩, ⟨hpos, Nat.pos_of_ne_zero hne, hal, hhigh⟩, hap⟩
  · exact .inl (if_neg hc)

lemma memset_group_of_apart {m : Memory} {g g' : PageGroup} (hok : g.Ok) (hok' : g'.Ok)
    (hap : g.range.Apart g'.range) (v : BitVec 8) :
    arenaAt (memset m g.addr v (wrap (pgSize * g.cnt))) g'.addr = arenaAt m g'.addr := by
  have hhigh := hok.high
  have hpos := hok.pos
  have hpos' := hok'.cnt_pos
  have hsize : wrap (pgSize * g.cnt) = pgSize * g.cnt := wrap_of_lt (by omega)
  refine arenaAt_congr fun x h1 h2 => ?_
  rw [hsize, memset_apply _ _ _ _ _ hhigh, if_neg]
  simp only [PageGroup.range, Range.Apart, pgSize, arenaSize] at *
  omega

end Pages

lemma Ledger.Sound.header_notMem {L : Ledger} (hs : L.Sound) {g g' : PageGroup}
    (hg : g ∈ L.groups) (hg' : g' ∈ L.groups)
    (hb : BlockOf g (L.header g).desc p n) (h1 : g'.addr ≤ x)
    (h2 : x < g'.addr + arenaSize) : ¬ (p ≤ x ∧ x < p + n) := by
  obtain ⟨hb1, hb2, hb3⟩ := hb.bounds (hs.group g hg)
  have hcnt := (hs.group g' hg').cnt_pos
  by_cases hgg : g = g'
  · subst hgg
    omega
  · have hap := hs.separate.apart_of_ne hg hg' hgg
    simp only [PageGroup.range, Range.Apart, pgSize, arenaSize] at *
    omega

lemma Inv.of_writes (hi : Inv h live)
    (hg : g ∈ h.groups) (hb : BlockOf g (arenaAt h.mem g.addr).desc p n) {m : Memory}
    (hm : ∀ x, ¬ (p ≤ x ∧ x < p + n) → m x = h.mem x) : Inv { h with mem := m } live := by
  apply hi.of_headers
  intro g' hg'
  apply arenaAt_congr
  intro x h1 h2
  exact hm x (hi.sound.header_notMem hg hg' hb h1 h2)

lemma Inv.header_store (hi : Inv h live)
    (hg : g ∈ h.groups) {v : Nat} (hv : v < 4294967296) (g' : PageGroup) (hg' : g' ∈ h.groups) :
    arenaAt (h.mem.store (g.addr + 8) v) g'.addr = update (fun g => arenaAt h.mem g.addr) g
      { arenaAt h.mem g.addr with freeCnt := v } g' := by
  by_cases hgg : g' = g
  · subst hgg
    rw [update_self]
    exact arenaAt_store hv
  · rw [update_of_ne hgg]
    have hap := hi.sound.header_apart hg hg' (Ne.symm hgg)
    apply arenaAt_store_of_apart
    simp only [pgSize, arenaSize] at *
    omega

lemma Inv.header_putArena (hi : Inv h live)
    (hok : g.Ok) (hap : ∀ g' ∈ h.groups, g.range.Apart g'.range) {r : Arena}
    (h1 : r.magic < 4294967296) (h2 : r.desc < 4294967296) (h3 : r.freeCnt < 4294967296)
    (g' : PageGroup) (hg' : g' ∈ g :: h.groups) : arenaAt (putArena h.mem g.addr r) g'.addr =
      update (fun g => arenaAt h.mem g.addr) g r g' := by
  rcases List.mem_cons.mp hg' with rfl | hg'
  · rw [update_self]
    exact arenaAt_putArena h1 h2 h3
  · have hne : g' ≠ g := fun he => hi.sound.fresh hok hap g' hg' (congrArg PageGroup.addr he)
    have hcnt := (hi.sound.group g' hg').cnt_pos
    have hcnt' := hok.cnt_pos
    have hap := hap g' hg'
    rw [update_of_ne hne]
    apply arenaAt_putArena_of_apart
    simp only [PageGroup.range, Range.Apart, pgSize, arenaSize] at *
    omega

def OnHeaders (old new : List PageGroup) (m m' : Memory) : Prop :=
  ∀ x, (∀ g ∈ old, x < g.addr + 8 ∨ g.addr + arenaSize ≤ x) →
    (∀ g ∈ new, x < g.addr ∨ g.addr + arenaSize ≤ x) → m' x = m x

lemma OnHeaders.store (hg : g ∈ old) (m : Memory) (v : Nat) : OnHeaders old [] m (m.store (g.addr + 8) v) := by
  intro x hx _
  have hout := hx g hg
  simp only [arenaSize] at hout
  exact m.store_of_notMem (by omega)

lemma OnHeaders.putArena (old : List PageGroup) (g : PageGroup) (m : Memory) (r : Arena) :
    OnHeaders old [g] m (putArena m g.addr r) :=
  fun _ _ hx => putArena_of_notMem (hx g List.mem_cons_self)

lemma OnHeaders.trans {m m' m'' : Memory}
    (h : OnHeaders old [g] m m') (h' : OnHeaders (g :: old) [] m' m'') : OnHeaders old [g] m m'' := by
  intro x hold hnew
  refine (h' x (fun g' hg' => ?_) (by simp)).trans (h x hold hnew)
  rcases List.mem_cons.mp hg' with rfl | hg'
  · exact (hnew g' List.mem_cons_self).imp_left fun hlt => by omega
  · exact hold g' hg'

lemma popBlock_eq (hi : Inv h live)
    {rest : List Nat} (hs : shapes[i]? = some s) (hf : freeListOf h i = p :: rest)
    (hsize : size ≤ s.1) : ∃ h', popBlock h i = .ok (p, h') ∧ h'.groups = h.groups ∧ p ≠ 0 ∧
      Inv h' (⟨p, size⟩ :: live) ∧ OnHeaders h.groups [] h.mem h'.mem := by
  obtain ⟨g, hg, hd, hr, n, hb⟩ := hi.sound.arena_of_free (i := i) (p := p)
    (show p ∈ freeListOf h i from hf ▸ List.mem_cons_self)
  have hok := hi.sound.group g hg
  have hmagic := hi.sound.magic g hg
  obtain rfl : n = s.1 := hb.size_eq hs
  -- the header's count is the number of free blocks, of which `p` is one
  have hcnt : (arenaAt h.mem g.addr).freeCnt = rest.countP (pgRoundDown · = g.addr) + 1 := by
    obtain ⟨-, k, s', hs', hk, hc⟩ := hi.sound.small g hg (by rw [hd]; exact Nat.succ_ne_zero i)
    obtain rfl : i = k := by simpa [descPtr, hd] using hk
    have hc' : (arenaAt h.mem g.addr).freeCnt =
      (freeListOf h i).countP (pgRoundDown · = g.addr) := hc
    rw [hc', hf, List.countP_cons_of_pos (by simpa using hr)]
  have hlt : (arenaAt h.mem g.addr).freeCnt < 4294967296 := Memory.load_lt _ _
  have hw : wrap ((arenaAt h.mem g.addr).freeCnt + 4294967295) =
      rest.countP (pgRoundDown · = g.addr) := by
    rw [hcnt] at hlt ⊢
    simp only [wrap]
    omega
  refine ⟨setFreeCnt (setFreeList h i rest) g.addr (rest.countP (pgRoundDown · = g.addr)),
    ?_, rfl, ?_, ?_, .store hg h.mem _⟩
  · have hba : blockToArena (setFreeList h i rest) p = .ok g.addr :=
      blockToArena_eq ((setFreeList_shape rest).trans hi.shape) hok hmagic (n := s.1)
        (by rw [show (arenaAt (setFreeList h i rest).mem g.addr).desc = descPtr i from hd]; exact hb)
    unfold popBlock
    rw [hf]
    dsimp only
    rw [hba, bind_ok, show (setFreeList h i rest).mem = h.mem from rfl, hw]
    rfl
  · have hb1 := (hb.bounds hok).1
    have hpos := hok.pos
    omega
  · refine ⟨(setFreeList_shape rest).trans hi.shape, ?_⟩
    refine (hi.sound.take hg hd hf hb hsize).congr (hi.header_store hg (by omega)) fun k => ?_
    exact congrFun (freeListOf_setFreeList hi.shape hs rest) k

lemma newArena_cases (hi : Inv h live) (hs : shapes[i]? = some s) (answer : Nat) :
    newArena h i answer = .ok none ∨ ∃ h', newArena h i answer = .ok (some h') ∧
      h'.groups = ⟨answer, 1⟩ :: h.groups ∧
      freeListOf h' i = freeListOf h i ++ blocks ⟨answer, 1⟩ s ∧ Inv h' live ∧
      OnHeaders h.groups [⟨answer, 1⟩] h.mem h'.mem := by
  have hi7 : i < 7 := (List.getElem?_eq_some_iff.mp hs).1
  have hcnt := shapes_snd_lt hs
  rcases pallocGetMultiple_cases h answer 1 with hnull | ⟨hget, hok, hap⟩
  · left
    unfold newArena
    rw [hnull]
    rfl
  · right
    let g : PageGroup := ⟨answer, 1⟩
    let r : Arena := ⟨arenaMagic, descPtr i, s.2⟩
    let h₁ : Heap := { h with groups := g :: h.groups, mem := putArena h.mem answer r }
    have hhead := hi.header_putArena hok hap (r := r) arenaMagic_lt
      (by simp only [r, descPtr]; omega) hcnt
    have hself : arenaAt h₁.mem g.addr = r := (hhead g List.mem_cons_self).trans (update_self _ _ _)
    obtain ⟨d, hderef, -, hbpa⟩ := derefDesc_eq (h := { h with groups := g :: h.groups }) hi.shape hs
    have hcarved : Carved h₁ g i s := ⟨hok, hs, hi.shape, congrArg Arena.magic hself, congrArg Arena.desc hself⟩
    have hpush := hcarved.pushBlocks_eq s.2 0 (by omega)
    refine ⟨setFreeList h₁ i (freeListOf h i ++ blocks g s), ?_, rfl, ?_, ?_,
      .putArena h.groups g h.mem r⟩
    · have hne : answer ≠ 0 := Nat.ne_of_gt hok.pos
      unfold newArena
      rw [hget]
      dsimp only
      rw [if_neg hne, hderef, bind_ok, hbpa, hpush, ← List.range_eq_range']
      rfl
    · rw [freeListOf_setFreeList (h := h₁) hi.shape hs, update_self]
    · refine ⟨(setFreeList_shape _).trans hi.shape, ?_⟩
      refine (hi.sound.addSmall hok hap rfl hs).congr hhead fun k => ?_
      exact congrFun (freeListOf_setFreeList (h := h₁) hi.shape hs _) k

lemma mallocBig_cases (hi : Inv h live) (hsize : size + arenaSize ≤ 4294967296) (answer : Nat) :
    mallocBig h size answer = (0, h) ∨ ∃ cnt h', h'.groups = ⟨answer, cnt⟩ :: h.groups ∧
      mallocBig h size answer = (answer + arenaSize, h') ∧
      Inv h' (⟨answer + arenaSize, size⟩ :: live) ∧
      OnHeaders h.groups [⟨answer, cnt⟩] h.mem h'.mem := by
  rcases pallocGetMultiple_cases h answer (divRoundUp (wrap (size + arenaSize)) pgSize) with
    hnull | ⟨hget, hok, hap⟩
  · left
    unfold mallocBig
    dsimp only
    rw [hnull]
    rfl
  · right
    have hcnt := hok.cnt_pos
    have hhigh := hok.high
    have hpos := hok.pos
    generalize hc : divRoundUp (wrap (size + arenaSize)) pgSize = cnt at *
    -- the page count is not zero, so neither the addition nor the rounding has wrapped
    have hroom : size ≤ pgSize * cnt - arenaSize := by
      simp only [divRoundUp, wrap, arenaSize, pgSize] at *
      omega
    have hhead := hi.header_putArena hok hap (r := ⟨arenaMagic, 0, cnt⟩) arenaMagic_lt (by simp)
      (by simp only [pgSize] at hhigh; dsimp only; omega)
    refine ⟨cnt, { h with
      groups := ⟨answer, cnt⟩ :: h.groups, mem := putArena h.mem answer ⟨arenaMagic, 0, cnt⟩ },
      rfl, ?_, ⟨hi.shape, ?_⟩, .putArena h.groups ⟨answer, cnt⟩ h.mem _⟩
    · have hne : answer ≠ 0 := Nat.ne_of_gt hpos
      have hw : wrap (answer + arenaSize) = answer + arenaSize := by
        apply wrap_of_lt
        simp only [arenaSize, pgSize] at *
        omega
      unfold mallocBig
      dsimp only
      rw [hc, hget]
      dsimp only
      rw [if_neg hne, hw]
    · exact (hi.sound.addBig hok hap hroom).congr hhead fun _ => rfl

lemma malloc_cases (hi : Inv h live) (hsize : size + arenaSize ≤ 4294967296) (answer : Nat) :
    malloc h size answer = .ok (0, h) ∨ ∃ p h', malloc h size answer = .ok (p, h') ∧ p ≠ 0 ∧
      Inv h' (⟨p, size⟩ :: live) ∧ ∃ new, h'.groups = new ++ h.groups ∧
        (∀ g ∈ new, pgRoundDown p = g.addr) ∧ OnHeaders h.groups new h.mem h'.mem := by
  by_cases hz : size = 0
  · exact .inl (if_pos hz)
  unfold malloc
  rw [if_neg hz]
  cases hfind : h.descs.findIdx? fun d => size ≤ d.blockSize with
  | none =>
    rcases mallocBig_cases hi hsize answer with hnull | ⟨cnt, h', hgr, hbig, hi', hmem⟩
    · exact .inl (congrArg Except.ok hnull)
    · have hok := hi'.group (g := ⟨answer, cnt⟩) (by rw [hgr]; exact List.mem_cons_self)
      refine .inr ⟨_, h', congrArg Except.ok hbig, ?_, hi', [⟨answer, cnt⟩], hgr, ?_, hmem⟩
      · simp [arenaSize]
      · simpa using (BlockOf.big (g := ⟨answer, cnt⟩)).pgRoundDown_eq hok
  | some i =>
    obtain ⟨hlt, hle, -⟩ := List.findIdx?_eq_some_iff_getElem.mp hfind
    have hs : shapes[i]? = some h.descs[i].shape := by
      rw [← hi.shape, List.getElem?_map, List.getElem?_eq_getElem hlt]
      rfl
    have hle : size ≤ h.descs[i].shape.1 := of_decide_eq_true hle
    dsimp only
    by_cases hempty : freeListOf h i = []
    · rw [if_pos hempty]
      rcases newArena_cases hi hs answer with hnone | ⟨h₁, hnew, hgr, hfl, hi₁, hmem₁⟩
      · left
        rw [hnone]
        rfl
      · right
        have hok := hi₁.group (g := ⟨answer, 1⟩) (by rw [hgr]; exact List.mem_cons_self)
        rw [hempty, List.nil_append] at hfl
        obtain ⟨-, -, hpos, -⟩ := shapes_bounds (List.mem_of_getElem? hs)
        cases hblk : blocks ⟨answer, 1⟩ h.descs[i].shape with
        | nil =>
          have hlen : (blocks ⟨answer, 1⟩ h.descs[i].shape).length = 0 := by rw [hblk]; rfl
          simp only [blocks, List.length_map, List.length_range] at hlen
          omega
        | cons p rest =>
          obtain ⟨h', hpop, hgr', hne, hi', hmem⟩ := popBlock_eq hi₁ hs (hfl.trans hblk) hle
          obtain ⟨n, hn⟩ := (mem_blocks hs p).mp (hblk ▸ List.mem_cons_self)
          rw [hnew, bind_ok]
          exact ⟨p, h', hpop, hne, hi', [⟨answer, 1⟩], hgr'.trans hgr,
            by simpa using hn.pgRoundDown_eq hok, hmem₁.trans (hgr ▸ hmem)⟩
    · rw [if_neg hempty]
      obtain ⟨p, rest, hf⟩ := List.exists_cons_of_ne_nil hempty
      obtain ⟨h', hpop, hgr', hne, hi', hmem⟩ := popBlock_eq hi hs hf hle
      exact .inr ⟨p, h', hpop, hne, hi', [], hgr', by simp, hmem⟩

lemma Inv.dropGroup {live' : List Block} (hi : Inv h live)
    (hg : g ∈ h.groups) {descs : List Desc} (hsh : descs.map Desc.shape = shapes)
    (hfree : ∀ i, freeListOf { h with descs := descs } i =
      (freeListOf h i).filter (pgRoundDown · ≠ g.addr))
    (hsub : live'.Sublist live)
    (hlive : ∀ b, b ∈ live' ↔ b ∈ live ∧ pgRoundDown b.addr ≠ g.addr) :
    Inv (pallocFreeMultiple { h with descs := descs } g.addr g.cnt) live' := by
  refine ⟨hsh, (hi.sound.drop hg hsub hlive).congr (fun g' hg' => ?_) hfree⟩
  have hmem : g' ≠ g ∧ g' ∈ h.groups := hi.sound.groups_nodup.mem_erase_iff.mp hg'
  exact memset_group_of_apart (hi.group hg) (hi.group hmem.2)
    (hi.sound.separate.apart_of_ne hg hmem.2 (Ne.symm hmem.1)) _

def released (h : Heap) (i p n a freeCnt : Nat) : Heap :=
  setFreeCnt (setFreeList { h with mem := memset h.mem p 0xcc n } i
    (p :: freeListOf { h with mem := memset h.mem p 0xcc n } i)) a freeCnt

lemma Inv.release (hi : Inv h live) (hb : b ∈ live) (hg : g ∈ h.groups) (hs : shapes[i]? = some s)
    (hd : (arenaAt h.mem g.addr).desc = descPtr i) (hn : BlockOf g (descPtr i) b.addr s.1) :
    ∃ freeCnt, wrap ((arenaAt (memset h.mem b.addr 0xcc s.1) g.addr).freeCnt + 1) = freeCnt ∧
      Inv (released h i b.addr s.1 g.addr freeCnt) (live.erase b) ∧
      (arenaAt (released h i b.addr s.1 g.addr freeCnt).mem g.addr).desc = descPtr i ∧
      freeCnt ≤ s.2 ∧ (s.2 ≤ freeCnt ↔ ∀ c ∈ live.erase b, pgRoundDown c.addr ≠ g.addr) := by
  have hok := hi.group hg
  obtain ⟨hb1, hb2, hb3⟩ := hn.bounds hok
  have hset : ∀ x, ¬ (b.addr ≤ x ∧ x < b.addr + s.1) →
      memset h.mem b.addr 0xcc s.1 x = h.mem x := by
    intro x hx
    have hhigh := hok.high
    rw [memset_apply _ _ _ _ _ (by omega), if_neg hx]
  have hi₁ := hi.of_writes hg (hd ▸ hn) hset
  have hd₁ : (arenaAt (memset h.mem b.addr 0xcc s.1) g.addr).desc = descPtr i := by
    rw [arenaAt_congr fun x h1 h2 => hset x (hi.sound.header_notMem hg hg (hd ▸ hn) h1 h2), hd]
  obtain ⟨-, k, s', hs', hk, hc⟩ := hi₁.sound.small g hg (ne_of_eq_of_ne hd₁ (Nat.succ_ne_zero i))
  obtain rfl : i = k := Nat.succ.inj (hd₁.symm.trans hk)
  have hcnt : (b.addr :: freeListOf h i).countP (pgRoundDown · = g.addr) =
      (arenaAt (memset h.mem b.addr 0xcc s.1) g.addr).freeCnt + 1 := by
    rw [List.countP_cons_of_pos (by simpa using hn.pgRoundDown_eq hok)]
    exact congrArg (· + 1) hc.symm
  -- the count does not wrap, because it is at most the number of blocks of the arena
  have hle : (b.addr :: freeListOf h i).countP (pgRoundDown · = g.addr) ≤ s.2 :=
    hi₁.sound.give_le hg hd₁ hb hs hn
  have hlt := Nat.lt_of_le_of_lt hle (shapes_snd_lt hs)
  have hhead := hi₁.header_store hg hlt
  have hfree := freeListOf_setFreeList hi₁.shape hs (b.addr :: freeListOf h i)
  have hi₂ : Inv (released h i b.addr s.1 g.addr
      ((b.addr :: freeListOf h i).countP (pgRoundDown · = g.addr))) (live.erase b) := by
    refine ⟨(setFreeList_shape _).trans hi.shape, ?_⟩
    exact (hi₁.sound.give hg hd₁ hb hn).congr hhead fun k => congrFun hfree k
  have hd₂ := (congrArg Arena.desc ((hhead g hg).trans (update_self _ _ _))).trans hd₁
  have hcount := hi₂.sound.count_le hg hd₂ hs
  have hself := (congrFun hfree i).trans (update_self _ _ _)
  refine ⟨_, ?_, hi₂, hd₂, hle, ?_⟩
  · rw [← hcnt, wrap_of_lt hlt]
  · refine Iff.trans ?_ hcount.2
    exact iff_of_eq (congrArg (fun l => s.2 ≤ List.countP (pgRoundDown · = g.addr) l) hself.symm)

lemma Inv.live_nodup (hi : Inv h live) : live.Nodup :=
  hi.sound.addrs_nodup.of_map

lemma Inv.arena (hi : Inv h live) (hb : b ∈ live) :
    ∃ g ∈ h.groups, pgRoundDown b.addr = g.addr ∧ blockToArena h b.addr = .ok g.addr ∧
      b.addr ≠ 0 ∧ ∃ n, BlockOf g (arenaAt h.mem g.addr).desc b.addr n ∧ b.size ≤ n := by
  obtain ⟨g, hg, hr, n, hn, hle⟩ := hi.sound.arena_of_live hb
  have hok := hi.group hg
  have hb1 := (hn.bounds hok).1
  have hpos := hok.pos
  exact ⟨g, hg, hr, blockToArena_eq hi.shape hok (hi.sound.magic g hg) hn, by omega, n, hn, hle⟩

lemma Inv.filter_self (hi : Inv h live) (hg : g ∈ h.groups) (hd : (arenaAt h.mem g.addr).desc ≠ descPtr i) :
    (freeListOf h i).filter (pgRoundDown · ≠ g.addr) = freeListOf h i := by
  refine List.filter_eq_self.mpr fun p hp => ?_
  have hdesc := hi.sound.desc_of_free (i := i) (p := p) hp hg
  simp only [ne_eq, decide_not, Bool.not_eq_true', decide_eq_false_iff_not]
  exact fun hr => hd (hdesc hr)

lemma free_big (hi : Inv h live) (hb : b ∈ live) (hg : g ∈ h.groups) (hr : pgRoundDown b.addr = g.addr)
    (hd : (arenaAt h.mem g.addr).desc = 0) (hn : BlockOf g 0 b.addr n) :
    Inv (pallocFreeMultiple h g.addr g.cnt) (live.erase b) := by
  refine hi.dropGroup hg hi.shape (fun i => ?_) List.erase_sublist fun c => ?_
  · exact (hi.filter_self hg fun he => Nat.succ_ne_zero i (he.symm.trans hd)).symm
  · rw [hi.live_nodup.mem_erase_iff, and_comm]
    refine and_congr_right fun hc => not_congr ⟨fun he => he ▸ hr, fun hrc => ?_⟩
    obtain ⟨g', hg', hr', -, -, m, hm, -⟩ := hi.arena hc
    obtain rfl := hi.sound.group_unique hg hg' (hrc.symm.trans hr')
    apply hi.sound.live_inj hc hb
    exact (hm.big_eq hd).1.trans (hn.big_eq rfl).1.symm

lemma dismantle (hi : Inv h live) (hg : g ∈ h.groups) (hs : shapes[i]? = some s)
    (hd : (arenaAt h.mem g.addr).desc = descPtr i) (hlive : ∀ b ∈ live, pgRoundDown b.addr ≠ g.addr) :
    ∃ h', removeBlocks i g.addr s.2 0 h = .ok h' ∧
      Inv (pallocFreeMultiple h' g.addr g.cnt) live ∧ h'.groups = h.groups ∧ h'.mem = h.mem := by
  have hcarved : Carved h g i s := ⟨hi.group hg, hs, hi.shape, hi.sound.magic g hg, hd⟩
  refine ⟨_, hcarved.removeBlocks_eq s.2 0 (by omega), ?_, rfl, rfl⟩
  refine hi.dropGroup hg ((setFreeList_shape _).trans hi.shape) (fun k => ?_) (List.Sublist.refl _)
    fun b => ⟨fun hb => ⟨hb, hlive b hb⟩, fun hb => hb.1⟩
  apply (congrFun (freeListOf_setFreeList hi.shape hs _) k).trans
  by_cases hk : k = i
  · subst hk
    rw [update_self, ← List.range_eq_range']
    apply (List.Nodup.sdiff_eq_filter (hi.sound.free_nodup k)).trans
    apply List.filter_congr
    intro p hp
    have hp : p ∈ freeListOf h k := hp
    rw [decide_eq_decide]
    refine not_congr ⟨fun hin => ?_, fun hr => ?_⟩
    · obtain ⟨n, hn⟩ := (mem_blocks hs p).mp hin
      exact hn.pgRoundDown_eq (hi.group hg)
    · have hmem := hi.sound.free_filter hg hd hs p
      exact (hmem.mp (List.mem_filter.mpr ⟨hp, decide_eq_true hr⟩)).1
  · rw [update_of_ne hk]
    exact (hi.filter_self hg fun he => hk (Nat.succ.inj (he.symm.trans hd))).symm

structure Spares (h h' : Heap) (g : PageGroup) (p n : Nat) : Prop where
  outside : ∀ x, ¬ g.range.Mem x → h'.mem x = h.mem x
  kept : h'.groups = h.groups → ∀ x, ¬ (p ≤ x ∧ x < p + n) →
    x < g.addr + 8 ∨ g.addr + arenaSize ≤ x → h'.mem x = h.mem x

lemma released_mem (hok : g.Ok) {desc : Nat} (hn : BlockOf g desc p n)
    (i freeCnt : Nat) (hx : ¬ (p ≤ x ∧ x < p + n)) (hx' : x < g.addr + 8 ∨ g.addr + arenaSize ≤ x) :
    (released h i p n g.addr freeCnt).mem x = h.mem x := by
  obtain ⟨_, _, hend⟩ := hn.bounds hok
  have hhigh := hok.high
  simp only [arenaSize] at hx'
  change (memset h.mem p 0xcc n).store (g.addr + 8) freeCnt x = _
  rw [Memory.store_of_notMem _ (by omega), memset_apply _ _ _ _ _ (by omega), if_neg hx]

lemma pallocFree_mem (hok : g.Ok) (hx : ¬ g.range.Mem x) :
    (pallocFreeMultiple h g.addr g.cnt).mem x = h.mem x := by
  have hhigh := hok.high
  have hpos := hok.pos
  have hsize : wrap (pgSize * g.cnt) = pgSize * g.cnt := wrap_of_lt (by omega)
  simp only [pallocFreeMultiple]
  rw [hsize, memset_apply _ _ _ _ _ hhigh, if_neg]
  simpa only [PageGroup.range, Range.Mem] using hx

lemma outside_block (hok : g.Ok) {desc : Nat} (hn : BlockOf g desc p n)
    (hx : ¬ g.range.Mem x) : ¬ (p ≤ x ∧ x < p + n) ∧ (x < g.addr + 8 ∨ g.addr + arenaSize ≤ x) := by
  obtain ⟨h1, h2, h3⟩ := hn.bounds hok
  simp only [PageGroup.range, Range.Mem, arenaSize] at *
  omega

lemma erase_ne {gs : List PageGroup} (hg : g ∈ gs) : gs.erase g ≠ gs := by
  intro he
  have hlen := congrArg List.length he
  rw [List.length_erase_of_mem hg] at hlen
  have hpos := List.length_pos_of_mem hg
  omega

lemma free_eq (hi : Inv h live) (hb : b ∈ live) :
    ∃ h' g, g ∈ h.groups ∧ pgRoundDown b.addr = g.addr ∧ free h b.addr = .ok h' ∧
      Inv h' (live.erase b) ∧
      (∃ n, BlockOf g (arenaAt h.mem g.addr).desc b.addr n ∧ Spares h h' g b.addr n) ∧
      ((h'.groups = h.groups ∧ ∃ c ∈ live.erase b, pgRoundDown c.addr = g.addr) ∨
        h'.groups = h.groups.erase g) := by
  obtain ⟨g, hg, hr, hba, hne, n, hn, -⟩ := hi.arena hb
  have hok := hi.group hg
  unfold free
  rw [if_neg hne, hba, bind_ok]
  dsimp only
  by_cases hd0 : (arenaAt h.mem g.addr).desc = 0
  · have hbig : (arenaAt h.mem g.addr).freeCnt = g.cnt := hi.sound.big g hg hd0
    rw [if_neg (not_not.mpr hd0), hbig]
    exact ⟨_, g, hg, hr, pure_eq_ok _, free_big hi hb hg hr hd0 (hd0 ▸ hn),
      ⟨n, hn, fun x hx => pallocFree_mem hok hx, fun hgr => (erase_ne hg hgr).elim⟩, .inr rfl⟩
  · obtain ⟨hone, i, s, hs, hd, -⟩ := hi.sound.small g hg hd0
    have hd : (arenaAt h.mem g.addr).desc = descPtr i := hd
    obtain ⟨d, hderef, hsize, hbpa⟩ := derefDesc_eq hi.shape hs
    have hn₀ := hn
    rw [hd] at hn
    obtain rfl : n = s.1 := hn.size_eq hs
    obtain ⟨freeCnt, hw, hi', hd', hle, hlast⟩ := hi.release hb hg hs hd hn
    have hindex : descPtr i - 1 = i := Nat.add_sub_cancel i 1
    rw [if_pos hd0, hd, hderef, bind_ok, hsize, hbpa, hindex]
    have hmem : (setFreeList { h with mem := memset h.mem b.addr 0xcc s.1 } i
      (b.addr :: freeListOf { h with mem := memset h.mem b.addr 0xcc s.1 } i)).mem =
        memset h.mem b.addr 0xcc s.1 := rfl
    have hreleased : setFreeCnt (setFreeList { h with mem := memset h.mem b.addr 0xcc s.1 } i
      (b.addr :: freeListOf { h with mem := memset h.mem b.addr 0xcc s.1 } i)) g.addr freeCnt =
        released h i b.addr s.1 g.addr freeCnt := rfl
    rw [hmem, hw, hreleased]
    by_cases hall : s.2 ≤ freeCnt
    · obtain ⟨h', hrem, hi'', hgr, hmem'⟩ := dismantle hi' hg hs hd' (hlast.mp hall)
      rw [hone] at hi''
      have hgg : (pallocFreeMultiple h' g.addr 1).groups = h.groups.erase g := by
        simp only [pallocFreeMultiple, hgr, ← hone]
        rfl
      rw [if_pos hall, assertThat_pos (Nat.le_antisymm hle hall), bind_ok, hrem, bind_ok]
      refine ⟨_, g, hg, hr, pure_eq_ok _, hi'', ⟨s.1, hn₀, fun x hx => ?_, fun hkept => ?_⟩, .inr hgg⟩
      · obtain ⟨hx₁, hx₂⟩ := outside_block hok hn hx
        rw [← hone, pallocFree_mem hok hx, hmem', released_mem hok hn i freeCnt hx₁ hx₂]
      · exact (erase_ne hg (hgg.symm.trans hkept)).elim
    · rw [if_neg hall]
      have hsome : ∃ c ∈ live.erase b, pgRoundDown c.addr = g.addr := by
        by_contra hno
        exact hall (hlast.mpr fun c hc he => hno ⟨c, hc, he⟩)
      refine ⟨_, g, hg, hr, pure_eq_ok _, hi', ⟨s.1, hn₀, fun x hx => ?_, fun _ x hx hx' => ?_⟩,
        .inl ⟨rfl, hsome⟩⟩
      · obtain ⟨hx₁, hx₂⟩ := outside_block hok hn hx
        exact released_mem hok hn i freeCnt hx₁ hx₂
      · exact released_mem hok hn i freeCnt hx hx'

end Pintos.Malloc
