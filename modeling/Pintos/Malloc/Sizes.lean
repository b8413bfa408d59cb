import Pintos.Malloc.Runs

/-! How many bytes a block that `malloc` or `calloc` returns really has. -/

namespace Pintos.Malloc

open Pintos.Foundation Pintos.Kernel

variable {h h' : Heap} {live : List Block} {a b answer p size : Nat}

/-- The block has `size` usable bytes, by the header of its arena. -/
def HasRoom (h : Heap) (p size : Nat) : Prop := ∃ n, blockSize h p = .ok n ∧ size ≤ n

section Good

variable (hg : Good h live)

include hg

lemma Good.hasRoom (hb : ⟨p, size⟩ ∈ live) : HasRoom h p size ∧ size + arenaSize + pgSize ≤ 4294967296 := by
  obtain ⟨g, hmem, n, hn, hle, hbs⟩ := blockSize_eq hg hb
  have hok := hg.inv.group hmem
  refine ⟨⟨n, hbs, hle⟩, ?_⟩
  obtain ⟨hlow, -, hend⟩ := hn.bounds hok
  have hpos := hok.pos
  have haligned := hok.aligned
  have hhigh := hok.high
  simp only [arenaSize, pgSize] at *
  omega

lemma malloc_hasRoom (hsize : size + arenaSize ≤ 4294967296) (hr : malloc h size answer = .ok (p, h')) (hp : p ≠ 0) :
    HasRoom h' p size ∧ size + arenaSize + pgSize ≤ 4294967296 := by
  obtain ⟨p', h₁, hm, hg₁, -⟩ := good_malloc hg hsize answer
  cases hr.symm.trans hm
  exact hg₁.hasRoom (mem_enlist hp)

end Good

lemma malloc_mallocInit_big (m : Memory) (answer : Nat) (hs : 1024 < size)
    (hpos : divRoundUp (wrap (size + arenaSize)) pgSize ≠ 0)
    (hall : Allowed [] ⟨answer, divRoundUp (wrap (size + arenaSize)) pgSize⟩) :
    ∃ h', malloc (mallocInit m) size answer = .ok (answer + arenaSize, h') ∧
      arenaAt h'.mem answer = ⟨arenaMagic, 0, divRoundUp (wrap (size + arenaSize)) pgSize⟩ := by
  have hnone : (mallocInit m).descs.findIdx? (fun d => size ≤ d.blockSize) = none := by
    have hmax : ∀ d ∈ initDescs 10 16, d.blockSize ≤ 1024 := by decide
    refine List.findIdx?_eq_none_iff.mpr fun d hd => ?_
    have hle := hmax d hd
    exact decide_eq_false (by omega)
  obtain ⟨hne, haligned, hhigh, -⟩ := id hall
  have hw : wrap (answer + arenaSize) = answer + arenaSize := by
    apply wrap_of_lt
    simp only [pgSize, arenaSize] at *
    omega
  have hget : pallocGetMultiple (mallocInit m) answer (divRoundUp (wrap (size + arenaSize)) pgSize) =
      (answer, { mallocInit m with groups := [⟨answer, divRoundUp (wrap (size + arenaSize)) pgSize⟩] }) :=
    if_pos ⟨hpos, hall⟩
  rw [malloc, if_neg (by omega), hnone]
  simp only [mallocBig, hget, if_neg (Nat.ne_of_gt hne), hw]
  refine ⟨_, rfl, arenaAt_putArena arenaMagic_lt (Nat.zero_lt_succ _) ?_⟩
  simp only [pgSize] at hhigh ⊢
  omega

lemma allowed_first_page (size : Nat) :
    Allowed [] ⟨pgSize, divRoundUp (wrap (size + arenaSize)) pgSize⟩ := by
  have hcnt : divRoundUp (wrap (size + arenaSize)) pgSize < 1048576 := by
    simp only [divRoundUp, wrap, pgSize]
    omega
  refine ⟨Nat.zero_lt_succ _, Nat.mod_self _, ?_, fun g hg => absurd hg List.not_mem_nil⟩
  generalize divRoundUp (wrap (size + arenaSize)) pgSize = cnt at *
  simp only [pgSize]
  omega

lemma reachable_mallocInit (m : Memory) : system.ReachableWhere (fun _ c => SizeOk c) ⟨mallocInit m, []⟩ :=
  .init ⟨rfl, m, rfl⟩

/-- Every block that `malloc` returns has room for `size` bytes exactly when the size of the header can be added
to `size` without a wrap. -/
theorem malloc_room_when_header_fits (size : UInt32) :
    (∀ x, system.ReachableWhere (fun _ c => SizeOk c) x → ∀ answer p h',
      malloc x.heap size.toNat answer = .ok (p, h') → p ≠ 0 → HasRoom h' p size.toNat) ↔
      size.toNat + arenaSize ≤ 4294967296 := by
  have hlt := size.toNat_lt
  constructor
  · intro hall
    by_contra hwrap
    have hcnt : divRoundUp (wrap (size.toNat + arenaSize)) pgSize = 1 := by
      simp only [divRoundUp, wrap, arenaSize, pgSize] at *
      omega
    have hbig : 1024 < size.toNat := by
      simp only [arenaSize] at hwrap
      omega
    obtain ⟨h', hr, hheader⟩ := malloc_mallocInit_big (fun _ => 0) pgSize hbig (by rw [hcnt]; decide)
      (allowed_first_page _)
    rw [hcnt] at hheader
    obtain ⟨n, hn, hle⟩ := hall _ (reachable_mallocInit _) _ _ _ hr (by decide)
    have hsize := blockSize_big (g := ⟨pgSize, 1⟩) ⟨by decide, by decide, by decide, by decide⟩ hheader
    cases hn.symm.trans hsize
    simp only [pgSize, arenaSize] at *
    omega
  · intro hfit x hx answer p h' hr hp
    exact (malloc_hasRoom (good_reachable hx) hfit hr hp).1

theorem malloc_of_max_size_gets_page :
    ∃ x h', system.ReachableWhere (fun _ c => SizeOk c) x ∧
      malloc x.heap 0xffffffff 0xc0200000 = .ok (0xc020000c, h') ∧ blockSize h' 0xc020000c = .ok 4084 := by
  obtain ⟨h', hr, hheader⟩ := malloc_mallocInit_big (fun _ => 0) 0xc0200000
    (show 1024 < 0xffffffff by decide) (by decide) (by decide)
  have hcnt : divRoundUp (wrap (0xffffffff + arenaSize)) pgSize = 1 := by decide
  rw [hcnt] at hheader
  have hsize := blockSize_big (g := ⟨0xc0200000, 1⟩) ⟨by decide, by decide, by decide, by decide⟩ hheader
  exact ⟨_, h', reachable_mallocInit _, hr, hsize⟩

structure CallocLaw (a b p : Nat) (h' : Heap) : Prop where
  room : p ≠ 0 → HasRoom h' p (a * b)
  zeroed : p ≠ 0 → ∀ i < a * b, h'.mem (wrap (p + i)) = 0
  null : 4294967296 ≤ a * b → p = 0

/-- The products beyond the address space that are refused: those that wrap to less than a factor, and
those that leave `malloc` with 0 pages to ask for. -/
def Refused (a b : Nat) : Prop :=
  wrap (a * b) < a ∨ wrap (a * b) < b ∨
    4294967296 < wrap (a * b) + arenaSize + pgSize ∧ wrap (a * b) + arenaSize ≤ 4294967296

lemma memset_mem (m : Memory) (dst : Nat) (value : BitVec 8) {n i : Nat} (hi : i < n) :
    memset m dst value n (wrap (dst + i)) = value := by
  induction n with
  | zero => exact absurd hi (Nat.not_lt_zero i)
  | succ n ih =>
    rw [memset, Function.update_apply]
    split
    · rfl
    · next hne =>
      apply ih
      have hin : i ≠ n := fun he => hne (by rw [he])
      omega

lemma calloc_eq_ok (hr : calloc h a b answer = .ok (p, h'))
    (hp : p ≠ 0) : a ≤ wrap (a * b) ∧ b ≤ wrap (a * b) ∧
      ∃ h₁, malloc h (wrap (a * b)) answer = .ok (p, h₁) ∧
        h' = { h₁ with mem := memset h₁.mem p 0 (wrap (a * b)) } := by
  rw [calloc] at hr
  dsimp only at hr
  split at hr
  · cases hr
    exact (hp rfl).elim
  · next hle =>
    obtain ⟨⟨q, h₁⟩, hm, hr⟩ := bind_eq_ok.mp hr
    dsimp only at hr
    split at hr
    · cases hr
      exact ⟨by omega, by omega, h₁, hm, rfl⟩
    · next hq =>
      cases hr
      exact (hq hp).elim

lemma calloc_of_malloc {h h₁ : Heap} (ha : a ≤ wrap (a * b))
    (hb : b ≤ wrap (a * b)) (hm : malloc h (wrap (a * b)) answer = .ok (p, h₁)) (hp : p ≠ 0) :
    calloc h a b answer = .ok (p, { h₁ with mem := memset h₁.mem p 0 (wrap (a * b)) }) := by
  simp only [calloc, if_neg (show ¬ (wrap (a * b) < a ∨ wrap (a * b) < b) by omega), hm, bind_ok,
    if_pos hp, pure_eq_ok]

lemma calloc_keeps_law (hg : Good h live) (hfit : a * b + arenaSize ≤ 4294967296)
    (hr : calloc h a b answer = .ok (p, h')) : CallocLaw a b p h' := by
  have hlt : a * b < 4294967296 := by
    simp only [arenaSize] at hfit
    omega
  refine ⟨fun hp => ?_, fun hp i hi => ?_, fun hge => absurd hge (by omega)⟩
  · obtain ⟨p', h₁, hc, hg₁, -⟩ := good_calloc (a := a) (b := b) hg (.inr (.inr (by rwa [wrap_of_lt hlt]))) answer
    cases hr.symm.trans hc
    rw [wrap_of_lt hlt] at hg₁
    exact (hg₁.hasRoom (mem_enlist hp)).1
  · obtain ⟨-, -, h₁, -, rfl⟩ := calloc_eq_ok hr hp
    rw [wrap_of_lt hlt]
    exact memset_mem _ _ _ hi

lemma Refused.null (hg : Good h live)
    (hno : Refused a b) (hr : calloc h a b answer = .ok (p, h')) : p = 0 := by
  by_contra hp
  obtain ⟨ha, hb, h₁, hm, -⟩ := calloc_eq_ok hr hp
  rcases hno with hlt | hlt | ⟨hlow, hhigh⟩
  · omega
  · omega
  · have hle := (malloc_hasRoom hg hhigh hm hp).2
    omega

lemma callocs_of_not_refused {a : Nat} (m : Memory) (answer : Nat) (hno : ¬ Refused a b)
    (hbig : 4294967296 < a * b + arenaSize)
    (hall : Allowed [] ⟨answer, divRoundUp (wrap (wrap (a * b) + arenaSize)) pgSize⟩) :
    ∃ h₁ : Heap, arenaAt h₁.mem answer = ⟨arenaMagic, 0, divRoundUp (wrap (wrap (a * b) + arenaSize)) pgSize⟩ ∧
      calloc (mallocInit m) a b answer =
        .ok (answer + arenaSize, { h₁ with mem := memset h₁.mem (answer + arenaSize) 0 (wrap (a * b)) }) := by
  simp only [Refused, not_or, not_and, not_lt] at hno
  obtain ⟨ha, hb, hpages⟩ := hno
  have hlt := wrap_lt (a * b)
  have hlarge : 1024 < wrap (a * b) := by
    by_contra hle
    have hmul : a * b ≤ 1024 * 1024 := Nat.mul_le_mul (by omega) (by omega)
    simp only [arenaSize] at hbig
    omega
  have hpos : divRoundUp (wrap (wrap (a * b) + arenaSize)) pgSize ≠ 0 := by
    generalize wrap (a * b) = size at *
    simp only [divRoundUp, wrap, arenaSize, pgSize] at *
    omega
  obtain ⟨h₁, hm, hheader⟩ := malloc_mallocInit_big m answer hlarge hpos hall
  exact ⟨h₁, hheader, calloc_of_malloc ha hb hm (Nat.succ_ne_zero _)⟩

/-- So many zeros leave nothing of the block's own header. -/
lemma not_callocLaw (hbig : 4294967296 < a * b + arenaSize) : ¬ CallocLaw a b (pgSize + arenaSize) h' := by
  intro hlaw
  obtain ⟨n, hn, -⟩ := hlaw.room (by decide)
  unfold blockSize at hn
  obtain ⟨_, harena, -⟩ := bind_eq_ok.mp hn
  unfold blockToArena at harena
  dsimp only at harena
  rw [assertThat_bind_eq_ok, assertThat_bind_eq_ok] at harena
  have hmagic : h'.mem.load pgSize = arenaMagic := harena.2.1
  have hzero := hlaw.zeroed (by decide) 4294967284 (by simp only [arenaSize] at hbig; omega)
  have haddr : wrap (pgSize + arenaSize + 4294967284) = pgSize := by decide
  have hlow : (h'.mem pgSize).toNat = 0 := by rw [← haddr, hzero]; rfl
  rw [Memory.load, hlow, arenaMagic] at hmagic
  omega

/-- `calloc` keeps its promise for the factors whose product `malloc` can serve, and for those it refuses. -/
theorem calloc_law_when_product_fits (a b : UInt32) :
    (∀ x, system.ReachableWhere (fun _ c => SizeOk c) x → ∀ answer p h',
      calloc x.heap a.toNat b.toNat answer = .ok (p, h') → CallocLaw a.toNat b.toNat p h') ↔
    a.toNat * b.toNat + arenaSize ≤ 4294967296 ∨ Refused a.toNat b.toNat := by
  constructor
  · intro hall
    by_contra hnot
    obtain ⟨hbig, hno⟩ := not_or.mp hnot
    rw [not_le] at hbig
    obtain ⟨h₁, -, hr⟩ := callocs_of_not_refused (fun _ => 0) pgSize hno hbig (allowed_first_page _)
    exact not_callocLaw hbig (hall _ (reachable_mallocInit _) _ _ _ hr)
  · intro hwhen x hx answer p h' hr
    have hg := good_reachable hx
    rcases hwhen with hfit | hno
    · exact calloc_keeps_law hg hfit hr
    · obtain rfl := hno.null hg hr
      exact ⟨fun hp => (hp rfl).elim, fun hp => (hp rfl).elim, fun _ => rfl⟩

theorem calloc_of_wrapped_product_gets_block :
    ∃ x h', system.ReachableWhere (fun _ c => SizeOk c) x ∧
      calloc x.heap 65537 65537 0xc0200000 = .ok (0xc020000c, h') ∧
      65537 * 65537 = 4295098369 ∧ blockSize h' 0xc020000c = .ok 135156 := by
  have hno : ¬ Refused 65537 65537 := by
    unfold Refused
    decide
  obtain ⟨h₁, hheader, hr⟩ := callocs_of_not_refused (fun _ => 0) 0xc0200000 hno (by decide) (by decide)
  refine ⟨_, _, reachable_mallocInit _, hr, rfl, ?_⟩
  have hcnt : divRoundUp (wrap (wrap (65537 * 65537) + arenaSize)) pgSize = 33 := by decide
  rw [hcnt] at hheader
  refine blockSize_big (g := ⟨0xc0200000, 33⟩) ⟨by decide, by decide, by decide, by decide⟩
    ((arenaAt_congr fun x _ hx => ?_).trans hheader)
  exact (memset_apply _ _ _ _ _ (by decide)).trans (if_neg fun hin => absurd hx (not_lt_of_ge hin.1))

end Pintos.Malloc
