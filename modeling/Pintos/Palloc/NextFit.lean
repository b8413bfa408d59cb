import Pintos.Palloc.Runs

/-! Where the next fit policy puts groups, relative to the groups granted before. -/

namespace Pintos.Palloc

open Pintos.Foundation Pintos.Kernel

structure Tracked where
  machine : Machine
  granted : List Group

def Tracked.grant (z : Tracked) : Call → List Group
  | .get flags pageCnt =>
    match pallocGetMultiple z.machine.kernel flags pageCnt.toNat with
    | .error _ => z.granted
    | .ok (pages, _) =>
      if pages = 0 then z.granted else ⟨selectPool flags, pages, pageCnt.toNat⟩ :: z.granted
  | .free _ => z.granted

def tracked : System Tracked Call where
  init z := system.init z.machine ∧ z.granted = []
  next z c := (next z.machine c).map fun x => ⟨x, z.grant c⟩

def Tracked.lastEnd (z : Tracked) (name : PoolName) : Nat :=
  match z.granted.find? fun g => g.name = name with
  | some g => (g.pages - (z.machine.kernel.pool name).base) / pgSize + g.cnt
  | none => 0

def PlacedNext (z : Tracked) (flags : Flags) (pageCnt : Nat) : Prop :=
  ∀ pages s, pallocGetMultiple z.machine.kernel flags pageCnt = .ok (pages, s) → pages ≠ 0 →
    ∃ idx, pages = (z.machine.kernel.pool (selectPool flags)).pageAddr idx ∧
      NextFit (z.machine.kernel.pool (selectPool flags)).usedMap (z.lastEnd (selectPool flags)) pageCnt idx

variable {x : Machine} {z : Tracked}

lemma tracked_reachable (h : tracked.Reachable z) : system.Reachable z.machine := by
  refine h.invariant (I := fun z => system.Reachable z.machine) ?_ ?_
  · intro z hz
    exact .init hz.1
  · intro z c z' hz hn
    obtain ⟨x, hx, rfl⟩ := Option.map_eq_some_iff.mp hn
    exact hz.step hx

lemma free_nextfitStart {s t : State} {pages pageCnt : Nat}
    (h : pallocFreeMultiple s pages pageCnt = .ok t) : t.nextfitStart = s.nextfitStart := by
  obtain ⟨_, _, h⟩ := bind_eq_ok.mp h
  split at h
  · cases h
    rfl
  · obtain ⟨name, _, h⟩ := bind_eq_ok.mp h
    obtain ⟨inUse, _, h⟩ := bind_eq_ok.mp h
    obtain ⟨_, _, h⟩ := bind_eq_ok.mp h
    obtain ⟨usedMap, _, h⟩ := bind_eq_ok.mp h
    cases h
    rfl

def Spent (z : Tracked) : Prop :=
  z.machine.kernel.policy = .nextFit →
    (z.granted = [] ∧ z.machine.out = []) ∨ ∀ flags, ¬ CursorLegal z.machine.kernel flags

lemma spent_get (hr : tracked.Reachable z) (hz : Spent z) {flags : Flags}
    {pageCnt : UInt32} (hn : next z.machine (.get flags pageCnt) = some x) :
    Spent ⟨x, z.grant (.get flags pageCnt)⟩ := by
  have hreach := tracked_reachable hr
  have hi := inv_reachable hreach
  by_cases hzero : pageCnt.toNat = 0
  · simp only [next, pallocGetMultiple, hzero, if_true, Option.some.injEq] at hn
    subst hn
    simpa only [Tracked.grant, pallocGetMultiple, hzero, if_true] using hz
  · have hpos : 0 < pageCnt.toNat := Nat.pos_of_ne_zero hzero
    by_cases hc : CursorLegal z.machine.kernel flags
    · rcases get_cases hpos (hi.layout.pool _) hc with
        ⟨idx, c, t, -, -, hu, -, he⟩ | ⟨-, ⟨-, t, hu, -, he⟩ | ⟨-, he⟩⟩
      · have hne := pageAddr_ne_zero (hi.layout.pool (selectPool flags)) idx
        simp only [next, he, hne, if_false, Option.some.injEq] at hn
        subst hn
        intro hp
        exact .inr (cursor_lost hreach (hu.policy ▸ hp) he hne)
      · simp only [next, he, if_true, Option.some.injEq] at hn
        subst hn
        intro hp
        have hsame : z.grant (.get flags pageCnt) = z.granted := by simp only [Tracked.grant, he, if_true]
        rw [hsame]
        rcases hz (hu.policy ▸ hp) with hleft | hlost
        · exact .inl hleft
        · exact (hlost flags hc).elim
      · simp [next, he] at hn
    · simp [next, get_panics hpos hc] at hn

lemma spent_free (hr : tracked.Reachable z) (hz : Spent z) {g : Group}
    (hn : next z.machine (.free g) = some x) : Spent ⟨x, z.grant (.free g)⟩ := by
  have hi := inv_reachable (tracked_reachable hr)
  by_cases hg : g ∈ z.machine.out
  · obtain ⟨i, hp, hf⟩ := hi.fits hg
    obtain ⟨c, t, he, hu, hs⟩ := free_eq hi.layout (hi.groups g hg).1 hf
    rw [← hp] at he
    simp only [next, hg, if_true, he, Option.some.injEq] at hn
    subst hn
    intro hpol
    refine .inr fun flags hc => ?_
    rcases hz (hu.policy ▸ hpol) with ⟨-, hout⟩ | hlost
    · rw [hout] at hg
      exact (List.not_mem_nil hg).elim
    · apply hlost flags
      rwa [CursorLegal, hu.policy, free_nextfitStart he, (hu.shape hs.1 _).2.2] at hc
  · simp [next, hg] at hn

lemma reachable_spent (h : tracked.Reachable z) : Spent z := by
  have hh : tracked.Reachable z ∧ Spent z := by
    refine h.invariant (I := fun z => tracked.Reachable z ∧ Spent z) ?_ ?_
    · intro z hz
      exact ⟨.init hz, fun _ => .inl ⟨hz.2, hz.1.1⟩⟩
    · rintro z c z' ⟨hr, hz⟩ hn
      refine ⟨hr.step hn, ?_⟩
      obtain ⟨x, hx, rfl⟩ := Option.map_eq_some_iff.mp hn
      cases c with
      | get flags pageCnt => exact spent_get hr hz hx
      | free g => exact spent_free hr hz hx
  exact hh.2

section NextFit

variable {b : Bitmap} {start n idx : Nat}

lemma NextFit.eq_start (h : NextFit b start n idx) (hf : b.Fits false n start) : idx = start := by
  obtain ⟨-, ⟨hle, hleast⟩ | ⟨hnone, -⟩⟩ := h
  · by_contra hne
    exact hleast start le_rfl (by omega) hf
  · exact (hnone start le_rfl hf).elim

lemma NextFit.from_zero (h : NextFit b start n idx) (hnone : start = 0 ∨ b.bitCnt < start + n) :
    NextFit b 0 n idx := by
  rcases hnone with rfl | hlt
  · exact h
  · obtain ⟨hf, ⟨hle, -⟩ | ⟨-, hleast⟩⟩ := h
    · have hend := hf.1
      omega
    · exact ⟨hf, .inl ⟨Nat.zero_le idx, fun k _ => hleast k⟩⟩

end NextFit

lemma Inv.fits_of_empty (hi : Inv x) (hout : x.out = []) {name : PoolName} {n k : Nat}
    (h : k + n ≤ (x.kernel.pool name).usedMap.bitCnt) : (x.kernel.pool name).usedMap.Fits false n k := by
  refine ⟨h, fun j hj => ?_⟩
  have hbit := hi.bits name (k + j) (by omega)
  rw [hout] at hbit
  simpa using hbit

lemma Tracked.lastEnd_of_none (h : z.granted = []) (name : PoolName) :
    z.lastEnd name = 0 := by
  rw [lastEnd, h]
  rfl

lemma pageAddr_inj {p : Pool} {i j : Nat} (h : p.pageAddr i = p.pageAddr j) : i = j := by
  simp only [Pool.pageAddr, pgSize] at h
  omega

lemma get_ok (hr : tracked.Reachable z) (hp : z.machine.kernel.policy = .nextFit)
    {flags : Flags} {n pages : Nat} {t : State}
    (he : pallocGetMultiple z.machine.kernel flags n = .ok (pages, t)) (hne : pages ≠ 0) :
    ∃ idx, pages = (z.machine.kernel.pool (selectPool flags)).pageAddr idx ∧
      NextFit (z.machine.kernel.pool (selectPool flags)).usedMap z.machine.kernel.nextfitStart n idx ∧
      z.granted = [] ∧ z.machine.out = [] := by
  have hi := inv_reachable (tracked_reachable hr)
  have hpos : 0 < n := by
    by_contra hz
    simp only [pallocGetMultiple, show n = 0 by omega, if_true, Except.ok.injEq, Prod.mk.injEq] at he
    exact hne he.1.symm
  have hc : CursorLegal z.machine.kernel flags := by
    by_contra hc
    simp [get_panics hpos hc] at he
  have hnew := (reachable_spent hr hp).resolve_right fun hlost => hlost flags hc
  rcases get_cases hpos (hi.layout.pool _) hc with
    ⟨idx, c, t', -, -, -, hnext, he'⟩ | ⟨-, ⟨-, t', -, -, he'⟩ | ⟨-, he'⟩⟩
  · rw [he', Except.ok.injEq, Prod.mk.injEq] at he
    exact ⟨idx, he.1.symm, (hnext hp).2, hnew⟩
  · rw [he', Except.ok.injEq, Prod.mk.injEq] at he
    exact (hne he.1.symm).elim
  · simp [he'] at he

/-- A group lands where next fit wants it exactly when the scan starts at 0 or has to start again
there; after the first group that is granted no call returns. -/
theorem placed_next_iff_scan_from_zero {z : Tracked} (hr : tracked.Reachable z)
    (hp : z.machine.kernel.policy = .nextFit) (flags : Flags) (pageCnt : UInt32) :
    (PlacedNext z flags pageCnt.toNat ↔ pageCnt.toNat = 0 ∨ z.machine.kernel.nextfitStart = 0 ∨
      (z.machine.kernel.pool (selectPool flags)).usedMap.bitCnt <
        z.machine.kernel.nextfitStart + pageCnt.toNat) ∧
    (z.granted ≠ [] → 0 < pageCnt.toNat → pallocGetMultiple z.machine.kernel flags pageCnt.toNat =
      .error (.assertion .bitmapScanStart)) := by
  have hi := inv_reachable (tracked_reachable hr)
  refine ⟨⟨fun hplaced => ?_, fun hscan pages t he hne => ?_⟩, fun hgranted hpos => ?_⟩
  · by_contra hcond
    simp only [not_or, not_lt] at hcond
    obtain ⟨hn, hcur, hroom⟩ := hcond
    have hc : CursorLegal z.machine.kernel flags := .inr (by omega)
    obtain ⟨hnone, hout⟩ := (reachable_spent hr hp).resolve_right fun hlost => hlost flags hc
    have hfit := hi.fits_of_empty hout hroom
    have hfit₀ : (z.machine.kernel.pool (selectPool flags)).usedMap.Fits false pageCnt.toNat 0 :=
      hi.fits_of_empty hout (by omega)
    rcases get_cases (Nat.pos_of_ne_zero hn) (hi.layout.pool _) hc with
      ⟨idx, c, t, -, -, -, hnext, he⟩ | ⟨hno, -⟩
    · obtain ⟨idx', haddr, hplace⟩ := hplaced _ t he (pageAddr_ne_zero (hi.layout.pool _) idx)
      rw [z.lastEnd_of_none hnone] at hplace
      have hzero := hplace.eq_start hfit₀
      have hstart := (hnext hp).2.eq_start hfit
      have hsame := pageAddr_inj haddr
      omega
    · exact hno _ hfit
  · obtain ⟨idx, haddr, hnext, hnone, -⟩ := get_ok hr hp he hne
    refine ⟨idx, haddr, ?_⟩
    rw [z.lastEnd_of_none hnone]
    rcases hscan with hn | hscan
    · simp only [pallocGetMultiple, hn, if_true, Except.ok.injEq, Prod.mk.injEq] at he
      exact (hne he.1.symm).elim
    · exact hnext.from_zero hscan
  · have hlost := (reachable_spent hr hp).resolve_left fun hleft => hgranted hleft.1
    exact get_panics hpos (hlost flags)

def trackedRun (ram : RamPages) (calls : List Call) : Option Tracked :=
  match pallocInit .nextFit (fun _ => 0) 0 ram 4294967295 with
  | .error _ => none
  | .ok s => tracked.exec ⟨⟨s, []⟩, []⟩ calls

lemma trackedRun_reachable {ram : RamPages} {calls : List Call}
    (h : trackedRun ram calls = some z) : tracked.Reachable z := by
  rw [trackedRun] at h
  split at h
  · simp at h
  · next s hs => exact System.exec_reachable (.init ⟨⟨rfl, _, _, _, _, _, hs⟩, rfl⟩) h

theorem placed_next_at_boot_and_after_grant :
    (∃ z t, tracked.Reachable z ∧ pallocGetMultiple z.machine.kernel ⟨false, false, true⟩ 1 = .ok (0xc0105000, t) ∧
      PlacedNext z ⟨false, false, true⟩ (1 : UInt32).toNat) ∧
    ∃ z, tracked.Reachable z ∧ z.granted = [⟨.kernelPool, 0xc0101000, 1⟩] ∧
      (PlacedNext z ⟨false, false, true⟩ (1 : UInt32).toNat ↔ (1 : UInt32).toNat = 0 ∨
        z.machine.kernel.nextfitStart = 0 ∨
        (z.machine.kernel.pool .userPool).usedMap.bitCnt <
          z.machine.kernel.nextfitStart + (1 : UInt32).toNat) ∧
      pallocGetMultiple z.machine.kernel ⟨false, false, true⟩ (1 : UInt32).toNat =
        .error (.assertion .bitmapScanStart) := by
  have hboot : ((trackedRun ⟨264, by decide, by decide⟩ []).any fun z => z.machine.kernel.policy == .nextFit &&
      z.machine.kernel.nextfitStart == 0 && (pallocGetMultiple z.machine.kernel ⟨false, false, true⟩ 1).toOption.any
        fun r => r.1 == 0xc0105000) = true := by
    decide +kernel
  obtain ⟨y, hy, hfacts⟩ := (Option.any_eq_true _ _).mp hboot
  simp only [Bool.and_eq_true, beq_iff_eq] at hfacts
  obtain ⟨⟨hp, hstart⟩, hget⟩ := hfacts
  obtain ⟨⟨pages, t⟩, hget, hpages⟩ := exists_of_any hget
  obtain rfl : pages = 0xc0105000 := eq_of_beq hpages
  have hy := trackedRun_reachable hy
  have hplaced := (placed_next_iff_scan_from_zero hy hp ⟨false, false, true⟩ 1).1.mpr (.inr (.inl hstart))
  refine ⟨⟨y, t, hy, hget, hplaced⟩, ?_⟩
  have hrun : (trackedRun ⟨264, by decide, by decide⟩ [.get ⟨false, false, false⟩ 1]).map
      (fun z => z.machine.kernel.policy == .nextFit && z.granted == [⟨.kernelPool, 0xc0101000, 1⟩]) =
        some true := by
    decide +kernel
  obtain ⟨z, hz, hx⟩ := Option.map_eq_some_iff.mp hrun
  simp only [Bool.and_eq_true, beq_iff_eq] at hx
  have hr := trackedRun_reachable hz
  have hlaw := placed_next_iff_scan_from_zero hr hx.1 ⟨false, false, true⟩ 1
  exact ⟨z, hr, hx.2, hlaw.1, hlaw.2 (by simp [hx.2]) (by decide)⟩

lemma initPool_ok (m : Memory) (base : Nat) {pageCnt : Nat} (h : pageCnt < 1048576) (name : PoolName)
    (hle : bmPages pageCnt ≤ pageCnt) : ∃ p, initPool m base pageCnt h name = .ok p := by
  have hfit := bitmapBufSize_le_bmPages h
  have hbytes : wrap (bmPages pageCnt * pgSize) = bmPages pageCnt * 4096 := by
    apply wrap_of_lt
    simp only [pgSize, bmPages_eq h]
    omega
  obtain ⟨b, hcreate, -⟩ := bitmapCreateInBuf_eq m base
    (show pageCnt - bmPages pageCnt + 31 < 4294967296 by omega) (hbytes ▸ hfit)
  rw [initPool, if_neg (by omega), hcreate, bind_ok]
  exact ⟨_, rfl⟩

lemma boots_with_64_megabytes :
    ∃ s, pallocInit .nextFit (fun _ => 0) 0 ⟨16384, by decide, by decide⟩ 4294967295 = .ok s ∧
      s.policy = .nextFit ∧ s.nextfitStart = 0 ∧ (s.pool .kernelPool).base = 0xc0101000 ∧
      (s.pool .kernelPool).usedMap.bitCnt = 8063 := by
  have hcnt : bmPages 8064 = 1 := by decide
  obtain ⟨kernel, hk⟩ := initPool_ok (fun _ => 0) 0xc0100000 (show 8064 < 1048576 by decide)
    .kernelPool (by decide)
  obtain ⟨user, hu⟩ := initPool_ok (fun _ => 0) 0xc2080000 (show 8064 < 1048576 by decide)
    .userPool (by decide)
  have mk := initPool_made _ _ (by decide) hk
  refine ⟨⟨.nextFit, fun n => n.casesOn kernel user, 0, fun _ => 0⟩, ?_, rfl, rfl, ?_, ?_⟩
  · have hfree : freePages 0xc0100000 (wrap (wrap (16384 * pgSize) + physBase)) = 16128 := by decide
    have huser : userPages 16128 4294967295 = 8064 := by decide
    have hstart : wrap (1024 * 1024 + physBase) = 0xc0100000 := by decide
    have hnext : wrap (0xc0100000 + wrap (8064 * pgSize)) = 0xc2080000 := by decide
    unfold pallocInit
    rw [ptov_eq (by decide), bind_ok, ptov_eq (by decide), bind_ok]
    dsimp only
    simp only [hfree, huser, hstart, Nat.reduceSub, hnext]
    rw [hk, bind_ok, hu, bind_ok]
    refine congrArg Except.ok (congrArg (State.mk .nextFit · 0 fun _ => 0) (funext fun n => ?_))
    cases n <;> rfl
  · exact mk.base.trans (by rw [hcnt]; rfl)
  · exact mk.bitCnt.trans (by rw [hcnt])

theorem failed_get_moves_next_fit :
    ∃ z, tracked.Reachable z ∧ z.machine.kernel.policy = .nextFit ∧ z.granted = [] ∧
      (∃ t, pallocGetMultiple z.machine.kernel ⟨false, false, false⟩ 1 = .ok (0xc1101000, t)) ∧
      (z.machine.kernel.pool .kernelPool).usedMap.Fits false 1 0 ∧
      ¬ PlacedNext z ⟨false, false, false⟩ 1 := by
  obtain ⟨s, hs, hp, hcur, hbase, hcnt⟩ := boots_with_64_megabytes
  have hinit : tracked.Reachable ⟨⟨s, []⟩, []⟩ := .init ⟨⟨rfl, _, _, _, _, _, hs⟩, rfl⟩
  have hl := (inv_reachable (tracked_reachable hinit)).layout.pool .kernelPool
  have hfail : ∃ t, pallocGetMultiple s ⟨false, false, false⟩ (261889 : UInt32).toNat = .ok (0, t) ∧
      Updates s t .kernelPool (s.pool .kernelPool).usedMap ∧ t.nextfitStart = 4096 := by
    have hc : CursorLegal s ⟨false, false, false⟩ := .inr (by rw [hcur]; exact Nat.zero_le _)
    rcases get_cases (n := (261889 : UInt32).toNat) (by decide) hl hc with
      ⟨idx, c, t, hf, -⟩ | ⟨-, ⟨-, t, hu, hnext, he⟩ | ⟨hassert, -⟩⟩
    · have hend : idx + 261889 ≤ (s.pool .kernelPool).usedMap.bitCnt := hf.1
      omega
    · refine ⟨t, he, hu, (hnext hp).trans ?_⟩
      rw [show (s.pool (selectPool ⟨false, false, false⟩)).base = 0xc0101000 from hbase]
      decide
    · cases hassert
  obtain ⟨t, he, hu, hcur'⟩ := hfail
  have hnext : tracked.next ⟨⟨s, []⟩, []⟩ (.get ⟨false, false, false⟩ 261889) = some ⟨⟨t, []⟩, []⟩ := by
    simp only [tracked, next, Tracked.grant, he, if_true, Option.map_some]
  have hr := hinit.step hnext
  have hi := inv_reachable (tracked_reachable hr)
  have hshape := hu.shape rfl .kernelPool
  have hcnt' : (t.pool .kernelPool).usedMap.bitCnt = 8063 := hshape.2.2.trans hcnt
  have hbase' : (t.pool .kernelPool).base = 0xc0101000 := hshape.1.trans hbase
  have hclear : ∀ k < 8063, (t.pool .kernelPool).usedMap.Fits false 1 k := fun k hk =>
    hi.fits_of_empty rfl (hcnt'.symm ▸ hk)
  have hc : CursorLegal t ⟨false, false, false⟩ := by
    refine .inr ?_
    rw [hcur', show (t.pool (selectPool ⟨false, false, false⟩)).usedMap.bitCnt = 8063 from hcnt']
    decide
  have hget : ∃ t', pallocGetMultiple t ⟨false, false, false⟩ 1 = .ok (0xc1101000, t') := by
    rcases get_cases Nat.one_pos (hi.layout.pool .kernelPool) hc with
      ⟨idx, c, t', -, -, -, hplace, he'⟩ | ⟨hno, -⟩
    · have hidx : idx = 4096 := by
        have hplace := (hplace (hu.policy.trans hp)).2
        rw [hcur'] at hplace
        exact hplace.eq_start (hclear 4096 (by decide))
      refine ⟨t', he'.trans ?_⟩
      rw [hidx, Pool.pageAddr, show (t.pool (selectPool ⟨false, false, false⟩)).base = 0xc0101000 from hbase']
      rfl
    · exact (hno 0 (hclear 0 (by decide))).elim
  refine ⟨_, hr, hu.policy.trans hp, rfl, hget, hclear 0 (by decide), fun hplaced => ?_⟩
  obtain ⟨t', he'⟩ := hget
  obtain ⟨idx, haddr, hplace⟩ := hplaced _ t' he' (by decide)
  rw [Tracked.lastEnd_of_none rfl] at hplace
  rw [hplace.eq_start (hclear 0 (by decide)), Pool.pageAddr] at haddr
  change 0xc1101000 = (t.pool .kernelPool).base + pgSize * 0 at haddr
  omega

end Pintos.Palloc
