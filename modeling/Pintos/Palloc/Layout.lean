import Pintos.Foundation.Ranges
import Pintos.Palloc.Pools

/-! Where `pallocInit` puts the pools and their bitmaps. -/

namespace Pintos.Palloc

open Pintos.Foundation Pintos.Kernel

def Pool.pageAddr (p : Pool) (i : Nat) : Nat := p.base + pgSize * i

def Pool.pageRange (p : Pool) : Range := ⟨p.base, pgSize * p.usedMap.bitCnt⟩

def Pool.mapRange (p : Pool) : Range := ⟨p.mapAddr, p.base - p.mapAddr⟩

def Pool.region (p : Pool) : Range := ⟨p.mapAddr, p.base + pgSize * p.usedMap.bitCnt - p.mapAddr⟩

structure PoolLayout (p : Pool) : Prop where
  aligned : p.base % pgSize = 0
  low : 0xc0100000 ≤ p.mapAddr
  map_lt : p.mapAddr < p.base
  map_fits : bitmapBufSize p.usedMap.bitCnt ≤ p.base - p.mapAddr
  high : p.base + pgSize * p.usedMap.bitCnt < 4294967296

structure Layout (s : State) : Prop where
  pool : ∀ name, PoolLayout (s.pool name)
  apart : (s.pool .kernelPool).region.Apart (s.pool .userPool).region

lemma Layout.apart_of_ne {s : State} (h : Layout s) {n n' : PoolName} (hne : n ≠ n') :
    (s.pool n).region.Apart (s.pool n').region := by
  cases n <;> cases n'
  · exact (hne rfl).elim
  · exact h.apart
  · exact h.apart.symm
  · exact (hne rfl).elim

lemma Pool.pageRange_within (p : Pool) (h : PoolLayout p) : p.pageRange.Within p.region := by
  have := h.map_lt
  simp only [pageRange, region, Range.Within]
  omega

lemma Pool.pageRange_apart_mapRange (p : Pool) (h : PoolLayout p) : p.pageRange.Apart p.mapRange := by
  have := h.map_lt
  simp only [pageRange, mapRange, Range.Apart]
  omega

variable {base n pageCnt : Nat} {p : Pool}

lemma bitmapBufSize_eq (h : n < 1048576) : bitmapBufSize n = 8 + 4 * ((n + 31) / 32) := by
  simp only [bitmapBufSize, byteCnt, elemCnt, divRoundUp, elemBits, wrap]
  omega

lemma bmPages_eq (h : n < 1048576) :
    bmPages n = (8 + 4 * ((n + 31) / 32) + 4095) / 4096 := by
  simp only [bmPages, divRoundUp, bitmapBufSize_eq h, pgSize, wrap]
  omega

lemma bitmapBufSize_le_bmPages (h : n < 1048576) :
    bitmapBufSize (n - bmPages n) ≤ bmPages n * 4096 := by
  rw [bitmapBufSize_eq (by omega), bmPages_eq h]
  omega

structure Made (base pageCnt : Nat) (p : Pool) : Prop where
  mapAddr : p.mapAddr = base
  base : p.base = base + pgSize * bmPages pageCnt
  bitCnt : p.usedMap.bitCnt = pageCnt - bmPages pageCnt
  bm_le : bmPages pageCnt ≤ pageCnt
  clear : ∀ k < p.usedMap.bitCnt, p.usedMap.bit k = false

lemma initPool_made (m : Memory) (h : pageCnt < 1048576) {name : PoolName}
    (hb : base + pgSize * pageCnt < 4294967296)
    (hp : initPool m base pageCnt h name = .ok p) : Made base pageCnt p := by
  have hbm := bmPages_eq h
  have hfit := bitmapBufSize_le_bmPages h
  simp only [pgSize] at hb
  rw [initPool] at hp
  split at hp
  · simp at hp
  · next hle =>
    have hbytes : wrap (bmPages pageCnt * pgSize) = bmPages pageCnt * 4096 :=
      wrap_of_lt (by simp only [pgSize]; omega)
    obtain ⟨b, hcreate, hcnt, hclear⟩ := bitmapCreateInBuf_eq m base
      (show pageCnt - bmPages pageCnt + 31 < 4294967296 by omega) (hbytes ▸ hfit)
    rw [hcreate, bind_ok, pure_eq_ok, Except.ok.injEq] at hp
    subst hp
    refine ⟨rfl, ?_, hcnt, by omega, by simpa only [hcnt] using hclear⟩
    change wrap (base + wrap (bmPages pageCnt * pgSize)) = base + pgSize * bmPages pageCnt
    rw [hbytes, wrap_of_lt (by omega)]
    simp only [pgSize]
    omega

lemma Made.layout (h : Made base pageCnt p)
    (hc : pageCnt < 1048576) (hlow : 0xc0100000 ≤ base) (halign : base % 4096 = 0)
    (hhigh : base + 4096 * pageCnt < 4294967296) : PoolLayout p := by
  obtain ⟨hmap, hbase, hcnt, hle, -⟩ := h
  have hbm := bmPages_eq hc
  have hfit := bitmapBufSize_le_bmPages hc
  refine ⟨?_, ?_, ?_, ?_, ?_⟩ <;> simp only [hmap, hbase, hcnt, pgSize] <;> omega

lemma Made.region (h : Made base pageCnt p) :
    p.region = ⟨base, pgSize * pageCnt⟩ := by
  obtain ⟨hmap, hbase, hcnt, hle, -⟩ := h
  simp only [Pool.region, hmap, hbase, hcnt, pgSize, Range.mk.injEq, true_and]
  omega

lemma ptov_eq {paddr : Nat} (hp : paddr < physBase) : ptov paddr = .ok (wrap (paddr + physBase)) := by
  rw [ptov, assertThat_pos hp, bind_ok, pure_eq_ok]

structure Initialized (policy : Policy) (s : State) : Prop where
  layout : Layout s
  clear : ∀ name, ∀ k < (s.pool name).usedMap.bitCnt, (s.pool name).usedMap.bit k = false
  policy_eq : s.policy = policy

lemma freePages_ram (ram : RamPages) :
    freePages 0xc0100000 (wrap (wrap (ram.pages * pgSize) + physBase)) = ram.pages - 256 := by
  have hl := ram.low
  have hh := ram.high
  simp only [freePages, wrap, physBase, pgSize]
  omega

lemma pallocInit_initialized {policy : Policy} {m : Memory} {c : Nat} {ram : RamPages}
    {limit : Nat} {s : State} (h : pallocInit policy m c ram limit = .ok s) :
    Initialized policy s := by
  have hl := ram.low
  have hh := ram.high
  unfold pallocInit at h
  rw [ptov_eq (by decide), bind_ok, ptov_eq (by simp only [wrap, pgSize, physBase]; omega),
    bind_ok] at h
  dsimp only at h
  obtain ⟨kernel, hk, h⟩ := bind_eq_ok.mp h
  obtain ⟨user, hu, h⟩ := bind_eq_ok.mp h
  rw [pure_eq_ok, Except.ok.injEq] at h
  have hstart : wrap (1024 * 1024 + physBase) = 0xc0100000 := by decide
  have hle := userPages_le (ram.pages - 256) limit
  simp only [hstart, freePages_ram] at hk hu
  have hkb : wrap (0xc0100000 + wrap ((ram.pages - 256 - userPages (ram.pages - 256) limit) * pgSize)) =
      0xc0100000 + pgSize * (ram.pages - 256 - userPages (ram.pages - 256) limit) := by
    simp only [wrap, pgSize]
    omega
  rw [hkb] at hu
  have mk := initPool_made m _ (by simp only [pgSize]; omega) hk
  have mu := initPool_made m _ (by simp only [pgSize]; omega) hu
  subst h
  refine ⟨⟨?_, ?_⟩, ?_, rfl⟩
  · rintro (_ | _)
    · exact mk.layout (by omega) (by omega) (by omega) (by omega)
    · exact mu.layout (by omega) (by omega) (by simp only [pgSize]; omega)
        (by simp only [pgSize]; omega)
  · change kernel.region.Apart user.region
    rw [mk.region, mu.region]
    exact .inl le_rfl
  · rintro (_ | _)
    · exact mk.clear
    · exact mu.clear

end Pintos.Palloc
