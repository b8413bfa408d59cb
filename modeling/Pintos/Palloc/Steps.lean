import Pintos.Palloc.Layout

/-! One call of the page allocator on a laid out state. -/

namespace Pintos.Palloc

open Pintos.Foundation Pintos.Kernel

structure Updates (s t : State) (name : PoolName) (c : Bitmap) : Prop where
  policy : t.policy = s.policy
  pool : t.pool = Function.update s.pool name { s.pool name with usedMap := c }

def CursorLegal (s : State) (flags : Flags) : Prop :=
  s.policy = .firstFit ∨ s.nextfitStart ≤ (s.pool (selectPool flags)).usedMap.bitCnt

def SameShape (p q : Pool) : Prop :=
  q.base = p.base ∧ q.mapAddr = p.mapAddr ∧ q.usedMap.bitCnt = p.usedMap.bitCnt

variable {idx n : Nat} {p : Pool} {name : PoolName} {s : State}

lemma SameShape.layout {q : Pool} (h : SameShape p q) (hl : PoolLayout p) : PoolLayout q := by
  obtain ⟨hb, hm, hc⟩ := h
  exact ⟨hb ▸ hl.aligned, hm ▸ hl.low, hb ▸ hm ▸ hl.map_lt, hb ▸ hm ▸ hc ▸ hl.map_fits,
    hb ▸ hc ▸ hl.high⟩

lemma SameShape.region {q : Pool} (h : SameShape p q) : q.region = p.region := by
  obtain ⟨hb, hm, hc⟩ := h
  simp only [Pool.region, hb, hm, hc]

lemma Updates.shape {t : State} {c : Bitmap} (h : Updates s t name c)
    (hc : c.bitCnt = (s.pool name).usedMap.bitCnt) (n : PoolName) : SameShape (s.pool n) (t.pool n) := by
  by_cases hn : n = name
  · subst hn
    rw [h.pool, Function.update_self]
    exact ⟨rfl, rfl, hc⟩
  · rw [h.pool, Function.update_of_ne hn]
    exact ⟨rfl, rfl, rfl⟩

lemma Updates.layout {t : State} {c : Bitmap} (h : Updates s t name c)
    (hc : c.bitCnt = (s.pool name).usedMap.bitCnt) (hl : Layout s) : Layout t where
  pool n := (h.shape hc n).layout (hl.pool n)
  apart := by
    rw [(h.shape hc _).region, (h.shape hc _).region]
    exact hl.apart

def NextFit (b : Bitmap) (start n idx : Nat) : Prop :=
  b.Fits false n idx ∧
    ((start ≤ idx ∧ ∀ k, start ≤ k → k < idx → ¬ b.Fits false n k) ∨
      ((∀ k, start ≤ k → ¬ b.Fits false n k) ∧ ∀ k < idx, ¬ b.Fits false n k))

lemma placePages_legal {policy : Policy} {cursor : Nat} (n : Nat)
    (h : policy = .firstFit ∨ cursor ≤ p.usedMap.bitCnt) :
    ∃ idx c cursor', placePages policy p cursor n = .ok (idx, c, cursor') ∧
      ((idx = bitmapError ∧ c = p.usedMap ∧ ∀ k, ¬ p.usedMap.Fits false n k) ∨
        (idx ≠ bitmapError ∧ p.usedMap.Fits false n idx ∧ p.usedMap.Sets c idx n true)) ∧
      (policy = .nextFit → cursor' = wrap (p.base + wrap (pgSize * wrap (idx + n))) ∧
        (idx ≠ bitmapError → NextFit p.usedMap cursor n idx)) := by
  -- a scan from 0 settles the question for every index
  obtain ⟨idx, c, he, hs, herr, hset⟩ := bitmapScanAndFlip_eq p.usedMap n false (Nat.zero_le _)
  have hzero : (idx = bitmapError ∧ c = p.usedMap ∧ ∀ k, ¬ p.usedMap.Fits false n k) ∨
      (idx ≠ bitmapError ∧ p.usedMap.Fits false n idx ∧ p.usedMap.Sets c idx n true) := by
    rcases hs with ⟨hi, hnone⟩ | ⟨hi, _, hf, _⟩
    · exact .inl ⟨hi, herr hi, fun k => hnone k (Nat.zero_le k)⟩
    · exact .inr ⟨hi, hf, hset hi⟩
  cases policy with
  | firstFit => exact ⟨idx, c, cursor, by rw [placePages, he, bind_ok]; rfl, hzero, by simp⟩
  | nextFit =>
    have hc : cursor ≤ p.usedMap.bitCnt := h.resolve_left (by simp)
    obtain ⟨idx', c', he', hs', herr', hset'⟩ := bitmapScanAndFlip_eq p.usedMap n false hc
    by_cases hi : idx' = bitmapError
    · have hc' := herr' hi
      subst hi hc'
      obtain ⟨-, hnone⟩ := hs'.resolve_right fun hh => hh.1 rfl
      refine ⟨idx, c, wrap (p.base + wrap (pgSize * wrap (idx + n))), ?_, hzero,
        fun _ => ⟨rfl, fun hne => ?_⟩⟩
      · simp only [placePages, he', bind_ok, if_true, he]
        rfl
      · obtain ⟨-, -, hf, hleast⟩ := hs.resolve_left fun hh => hne hh.1
        exact ⟨hf, .inr ⟨hnone, fun k => hleast k (Nat.zero_le k)⟩⟩
    · obtain ⟨-, hle, hf, hleast⟩ := hs'.resolve_left fun hh => hi hh.1
      refine ⟨idx', c', wrap (p.base + wrap (pgSize * wrap (idx' + n))), ?_,
        .inr ⟨hi, hf, hset' hi⟩, fun _ => ⟨rfl, fun _ => ⟨hf, .inl ⟨hle, hleast⟩⟩⟩⟩
      simp only [placePages, he', bind_ok, hi, if_false]
      rfl

lemma placePages_panics {cursor : Nat} (n : Nat) (h : ¬ cursor ≤ p.usedMap.bitCnt) :
    placePages .nextFit p cursor n = .error (.assertion .bitmapScanStart) := by
  rw [placePages, bitmapScanAndFlip_panics p.usedMap n false h, bind_error]

lemma wrap_pageAddr (hl : PoolLayout p) (hn : 0 < n)
    (h : idx + n ≤ p.usedMap.bitCnt) : wrap (p.base + wrap (pgSize * idx)) = p.pageAddr idx := by
  have := hl.high
  simp only [pgSize] at this
  simp only [Pool.pageAddr, pgSize, wrap]
  omega

lemma wrap_cursor (hl : PoolLayout p) (h : idx + n ≤ p.usedMap.bitCnt) :
    wrap (p.base + wrap (pgSize * wrap (idx + n))) = p.pageAddr (idx + n) := by
  have := hl.high
  simp only [pgSize] at this
  simp only [Pool.pageAddr, pgSize, wrap]
  omega

lemma pageAddr_ne_zero (hl : PoolLayout p) (idx : Nat) : p.pageAddr idx ≠ 0 := by
  have := hl.low
  have := hl.map_lt
  simp only [Pool.pageAddr]
  omega

lemma get_cases {flags : Flags} (hn : 0 < n)
    (hl : PoolLayout (s.pool (selectPool flags))) (hc : CursorLegal s flags) :
    (∃ idx c t, (s.pool (selectPool flags)).usedMap.Fits false n idx ∧
      (s.pool (selectPool flags)).usedMap.Sets c idx n true ∧ Updates s t (selectPool flags) c ∧
      (s.policy = .nextFit → t.nextfitStart = (s.pool (selectPool flags)).pageAddr (idx + n) ∧
        NextFit (s.pool (selectPool flags)).usedMap s.nextfitStart n idx) ∧
      pallocGetMultiple s flags n = .ok ((s.pool (selectPool flags)).pageAddr idx, t)) ∨
    ((∀ k, ¬ (s.pool (selectPool flags)).usedMap.Fits false n k) ∧
      ((flags.palAssert = false ∧ ∃ t, Updates s t (selectPool flags)
          (s.pool (selectPool flags)).usedMap ∧
          (s.policy = .nextFit → t.nextfitStart = wrap ((s.pool (selectPool flags)).base +
            wrap (pgSize * wrap (bitmapError + n)))) ∧ pallocGetMultiple s flags n = .ok (0, t)) ∨
        (flags.palAssert = true ∧ pallocGetMultiple s flags n = .error .outOfPages))) := by
  obtain ⟨idx, c, cursor, hp, ⟨hi, hcc, hnone⟩ | ⟨hi, hf, hset⟩, hcur⟩ := placePages_legal n hc
  · refine .inr ⟨hnone, ?_⟩
    subst hi hcc
    cases ha : flags.palAssert with
    | true =>
      refine .inr ⟨rfl, ?_⟩
      simp [pallocGetMultiple, hn.ne', hp, ha]
    | false =>
      refine .inl ⟨rfl, { s.setMap (selectPool flags) (s.pool (selectPool flags)).usedMap with
        nextfitStart := cursor }, ⟨rfl, rfl⟩, fun hnext => (hcur hnext).1, ?_⟩
      simp only [pallocGetMultiple, hn.ne', hp, ha, bind_ok, if_false, ne_eq, not_true_eq_false,
        Bool.false_eq_true]
      rfl
  · refine .inl ⟨idx, c, ?_⟩
    have haddr := wrap_pageAddr hl hn hf.1
    have hne := pageAddr_ne_zero hl idx
    rw [wrap_cursor hl hf.1] at hcur
    have hnext := fun hp => (hcur hp).imp_right fun h => h hi
    let t := { s.setMap (selectPool flags) c with nextfitStart := cursor }
    cases hz : flags.palZero with
    | true =>
      let mem := memset t.mem ((s.pool (selectPool flags)).pageAddr idx) 0 (wrap (pgSize * n))
      refine ⟨{ t with mem := mem }, hf, hset, ⟨rfl, rfl⟩, hnext, ?_⟩
      simp only [pallocGetMultiple, hn.ne', hp, hz, bind_ok, if_false, ne_eq, hi, not_false_eq_true,
        if_true, haddr, hne]
      rfl
    | false =>
      refine ⟨t, hf, hset, ⟨rfl, rfl⟩, hnext, ?_⟩
      simp only [pallocGetMultiple, hn.ne', hp, hz, bind_ok, if_false, ne_eq, hi, not_false_eq_true,
        if_true, haddr, hne, Bool.false_eq_true]
      rfl

lemma get_panics {flags : Flags} (hn : 0 < n) (hc : ¬ CursorLegal s flags) :
    pallocGetMultiple s flags n = .error (.assertion .bitmapScanStart) := by
  obtain ⟨hp, hle⟩ := not_or.mp hc
  have hnext : s.policy = .nextFit := by
    cases h : s.policy with
    | firstFit => exact (hp h).elim
    | nextFit => rfl
  simp only [pallocGetMultiple, hn.ne', hnext, if_false, placePages_panics n hle, bind_error]

lemma pageFromPool_iff (hl : PoolLayout p) (page : Nat) :
    pageFromPool p page = true ↔ p.pageRange.Mem page := by
  have h1 := hl.high
  have h2 := hl.aligned
  simp only [pgSize] at h1 h2
  rw [pageFromPool, decide_eq_true_eq]
  simp only [pgNo, pgSize, wrap, Range.Mem, Pool.pageRange]
  omega

lemma owningPool_eq (hl : Layout s) {page : Nat}
    (h : (s.pool name).pageRange.Mem page) : owningPool s page = .ok name := by
  have hin := (pageFromPool_iff (hl.pool name) page).mpr h
  cases name with
  | kernelPool => rw [owningPool, if_pos hin]
  | userPool =>
    have hkernel := (s.pool .kernelPool).pageRange_within (hl.pool _)
    have huser := (s.pool .userPool).pageRange_within (hl.pool _)
    have hout : ¬ (s.pool .kernelPool).pageRange.Mem page := fun hh =>
      hl.apart.not_mem (hkernel.mem hh) (huser.mem h)
    rw [owningPool, if_neg ((pageFromPool_iff (hl.pool _) page).not.mpr hout), if_pos hin]

lemma free_eq (hl : Layout s) (hn : 0 < n)
    (hf : (s.pool name).usedMap.Fits true n idx) :
    ∃ c t, pallocFreeMultiple s ((s.pool name).pageAddr idx) n = .ok t ∧
      Updates s t name c ∧ (s.pool name).usedMap.Sets c idx n false := by
  have hp := hl.pool name
  have hal := hp.aligned
  have hle := hf.1
  have hmem : (s.pool name).pageRange.Mem ((s.pool name).pageAddr idx) := by
    simp only [Range.Mem, Pool.pageRange, Pool.pageAddr, pgSize]
    omega
  have hofs : pgOfs ((s.pool name).pageAddr idx) = 0 := by
    simp only [pgSize] at hal
    simp only [pgOfs, Pool.pageAddr, pgSize]
    omega
  have hidx : pgNo ((s.pool name).pageAddr idx) - pgNo (s.pool name).base = idx := by
    simp only [pgSize] at hal
    simp only [pgNo, Pool.pageAddr, pgSize]
    omega
  obtain ⟨r, hr, hiff⟩ := bitmapAll_eq (s.pool name).usedMap idx n hle
  obtain ⟨c, hc, hset⟩ := bitmapSetMultiple_eq (s.pool name).usedMap idx n false hle
  refine ⟨c, { s.setMap name c with
    mem := memset s.mem ((s.pool name).pageAddr idx) 0xcc (wrap (pgSize * n)) }, ?_, ⟨rfl, rfl⟩, hset⟩
  have hne : ¬ ((s.pool name).pageAddr idx = 0 ∨ n = 0) := by
    rintro (h | h)
    · exact pageAddr_ne_zero hp idx h
    · omega
  rw [pallocFreeMultiple, assertThat_pos hofs, bind_ok, if_neg hne]
  rw [owningPool_eq hl hmem, bind_ok]
  dsimp only
  rw [hidx, hr, bind_ok, assertThat_pos (hiff.mpr hf), bind_ok, hc, bind_ok, pure_eq_ok]

end Pintos.Palloc
