import Pintos.Foundation.Runs
import Pintos.Palloc.Steps

/-! Runs of the page allocator: the outstanding groups and the used maps agree. -/

namespace Pintos.Palloc

open Pintos.Foundation Pintos.Kernel

structure Group where
  name : PoolName
  pages : Nat
  cnt : Nat
  deriving DecidableEq, Repr

def Group.range (g : Group) : Range := ⟨g.pages, pgSize * g.cnt⟩

structure Machine where
  kernel : State
  out : List Group

inductive Call
  | get (flags : Flags) (pageCnt : UInt32)
  | free (g : Group)

def next (x : Machine) : Call → Option Machine
  | .get flags pageCnt =>
    match pallocGetMultiple x.kernel flags pageCnt.toNat with
    | .error _ => none
    | .ok (pages, s) =>
      if pages = 0 then some ⟨s, x.out⟩
      else some ⟨s, ⟨selectPool flags, pages, pageCnt.toNat⟩ :: x.out⟩
  | .free g =>
    if g ∈ x.out then
      match pallocFreeMultiple x.kernel g.pages g.cnt with
      | .error _ => none
      | .ok s => some ⟨s, x.out.erase g⟩
    else none

def system : System Machine Call where
  init x := x.out = [] ∧ ∃ policy m c ram limit, pallocInit policy m c ram limit = .ok x.kernel
  next := next

structure Inv (x : Machine) : Prop where
  layout : Layout x.kernel
  groups : ∀ g ∈ x.out, 0 < g.cnt ∧ ∃ i, g.pages = (x.kernel.pool g.name).pageAddr i ∧
    i + g.cnt ≤ (x.kernel.pool g.name).usedMap.bitCnt
  separate : Separate Group.range x.out
  bits : ∀ name, ∀ i < (x.kernel.pool name).usedMap.bitCnt,
    ((x.kernel.pool name).usedMap.bit i = true ↔
      ∃ g ∈ x.out, g.name = name ∧ g.range.Mem ((x.kernel.pool name).pageAddr i))

variable {c : Bitmap} {g : Group} {calls : List Call} {x : Machine} {name : PoolName} {s t : State}

lemma mem_range_iff (p : Pool) {i : Nat} (h : g.pages = p.pageAddr i) (k : Nat) :
    g.range.Mem (p.pageAddr k) ↔ i ≤ k ∧ k < i + g.cnt := by
  simp only [Group.range, Range.Mem, h, Pool.pageAddr, pgSize]
  omega

lemma Inv.within (hi : Inv x) (hg : g ∈ x.out) :
    g.range.Within (x.kernel.pool g.name).pageRange := by
  obtain ⟨-, i, hp, hle⟩ := hi.groups g hg
  simp only [Group.range, Range.Within, Pool.pageRange, hp, Pool.pageAddr, pgSize]
  omega

lemma Inv.apart_other (hi : Inv x) (hg : g ∈ x.out)
    (hne : g.name ≠ name) : g.range.Apart (x.kernel.pool name).region := by
  have hp := (x.kernel.pool g.name).pageRange_within (hi.layout.pool g.name)
  have hr := hi.layout.apart_of_ne hne
  exact (hi.within hg).apart (hp.apart hr)

lemma Inv.fits (hi : Inv x) (hg : g ∈ x.out) :
    ∃ i, g.pages = (x.kernel.pool g.name).pageAddr i ∧
      (x.kernel.pool g.name).usedMap.Fits true g.cnt i := by
  obtain ⟨-, i, hp, hle⟩ := hi.groups g hg
  refine ⟨i, hp, hle, fun j hj => ?_⟩
  rw [hi.bits g.name (i + j) (by omega)]
  exact ⟨g, hg, rfl, (mem_range_iff _ hp _).mpr (by omega)⟩

lemma Updates.pageAddr (h : Updates s t name c)
    (hc : c.bitCnt = (s.pool name).usedMap.bitCnt) (n : PoolName) (i : Nat) :
    (t.pool n).pageAddr i = (s.pool n).pageAddr i := by
  rw [Pool.pageAddr, Pool.pageAddr, (h.shape hc n).1]

lemma Updates.bit_of_ne {n : PoolName} (h : Updates s t name c)
    (hn : n ≠ name) : (t.pool n).usedMap = (s.pool n).usedMap := by
  rw [h.pool, Function.update_of_ne hn]

lemma Updates.bit_self (h : Updates s t name c) :
    (t.pool name).usedMap = c := by
  rw [h.pool, Function.update_self]

lemma Inv.of_updates (hi : Inv x)
    (h : Updates x.kernel t name c) (hc : c.bitCnt = (x.kernel.pool name).usedMap.bitCnt)
    {out : List Group} (hsep : Separate Group.range out)
    (hgroups : ∀ g ∈ out, 0 < g.cnt ∧ ∃ i, g.pages = (x.kernel.pool g.name).pageAddr i ∧
      i + g.cnt ≤ (x.kernel.pool g.name).usedMap.bitCnt)
    (hself : ∀ i < (x.kernel.pool name).usedMap.bitCnt, (c.bit i = true ↔
      ∃ g ∈ out, g.name = name ∧ g.range.Mem ((x.kernel.pool name).pageAddr i)))
    (hother : ∀ g, g.name ≠ name → (g ∈ out ↔ g ∈ x.out)) : Inv ⟨t, out⟩ where
  layout := h.layout hc hi.layout
  groups g hg := by
    obtain ⟨hpos, i, hp, hle⟩ := hgroups g hg
    exact ⟨hpos, i, by rw [h.pageAddr hc, hp], by rwa [(h.shape hc g.name).2.2]⟩
  separate := hsep
  bits n i hlt := by
    rw [(h.shape hc n).2.2] at hlt
    rw [h.pageAddr hc]
    by_cases hn : n = name
    · subst hn
      rw [h.bit_self]
      exact hself i hlt
    · rw [h.bit_of_ne hn, hi.bits n i hlt]
      constructor
      · rintro ⟨g, hg, rfl, hm⟩
        exact ⟨g, (hother g hn).mpr hg, rfl, hm⟩
      · rintro ⟨g, hg, rfl, hm⟩
        exact ⟨g, (hother g hn).mp hg, rfl, hm⟩

lemma Inv.get_success (hi : Inv x) {idx n : Nat} (hn : 0 < n)
    (hf : (x.kernel.pool name).usedMap.Fits false n idx)
    (hs : (x.kernel.pool name).usedMap.Sets c idx n true) (hu : Updates x.kernel t name c) :
    Inv ⟨t, ⟨name, (x.kernel.pool name).pageAddr idx, n⟩ :: x.out⟩ := by
  let g₀ : Group := ⟨name, (x.kernel.pool name).pageAddr idx, n⟩
  have hcov : ∀ k, g₀.range.Mem ((x.kernel.pool name).pageAddr k) ↔ idx ≤ k ∧ k < idx + n :=
    mem_range_iff (x.kernel.pool name) (g := g₀) rfl
  have hwithin : g₀.range.Within (x.kernel.pool name).pageRange := by
    have := hf.1
    simp only [g₀, Group.range, Range.Within, Pool.pageRange, Pool.pageAddr, pgSize]
    omega
  -- a common page of the new group and an old one would have both a clear and a set bit
  have hclash : ∀ g ∈ x.out, g.name = name → ∀ k, g₀.range.Mem ((x.kernel.pool name).pageAddr k) →
      ¬ g.range.Mem ((x.kernel.pool name).pageAddr k) := by
    intro g hg hname k hk hk'
    obtain ⟨h1, h2⟩ := (hcov k).mp hk
    have hbit := (hi.bits name k (by have := hf.1; omega)).mpr ⟨g, hg, hname, hk'⟩
    have hclear := hf.2 (k - idx) (by omega)
    rw [show idx + (k - idx) = k by omega] at hclear
    simp [hclear] at hbit
  refine hi.of_updates hu hs.1 (hi.separate.cons ?_) ?_ ?_ ?_
  · intro g hg
    by_cases hname : g.name = name
    · subst hname
      obtain ⟨hpos, i, hp, hle⟩ := hi.groups g hg
      have hk := hclash g hg rfl (max idx i)
      rw [hcov, mem_range_iff _ hp] at hk
      simp only [Group.range, Range.Apart, hp, Pool.pageAddr, pgSize]
      omega
    · have hregion := (x.kernel.pool name).pageRange_within (hi.layout.pool name)
      exact (hwithin.trans hregion).apart (hi.apart_other hg hname).symm
  · intro g hg
    rcases List.mem_cons.mp hg with rfl | hg
    · exact ⟨hn, idx, rfl, hf.1⟩
    · exact hi.groups g hg
  · intro k hk
    rw [hs.2 k hk]
    by_cases hin : idx ≤ k ∧ k < idx + n
    · rw [if_pos hin]
      exact ⟨fun _ => ⟨g₀, List.mem_cons_self, rfl, (hcov k).mpr hin⟩, fun _ => rfl⟩
    · rw [if_neg hin, hi.bits name k hk]
      constructor
      · rintro ⟨g, hg, hname, hm⟩
        exact ⟨g, List.mem_cons_of_mem _ hg, hname, hm⟩
      · rintro ⟨g, hg, hname, hm⟩
        rcases List.mem_cons.mp hg with rfl | hg
        · exact (hin ((hcov k).mp hm)).elim
        · exact ⟨g, hg, hname, hm⟩
  · intro g hne
    rw [List.mem_cons, or_iff_right]
    rintro rfl
    exact hne rfl

lemma Inv.free_success (hi : Inv x) (hg : g ∈ x.out) :
    ∃ t, pallocFreeMultiple x.kernel g.pages g.cnt = .ok t ∧ Inv ⟨t, x.out.erase g⟩ := by
  obtain ⟨i, hp, hf⟩ := hi.fits hg
  obtain ⟨c, t, hfree, hu, hs⟩ := free_eq hi.layout (hi.groups g hg).1 hf
  refine ⟨t, by rw [hp, hfree], hi.of_updates hu hs.1 (hi.separate.erase g)
    (fun g' hg' => hi.groups g' (List.mem_of_mem_erase hg')) ?_ ?_⟩
  · intro k hk
    rw [hs.2 k hk]
    have hcov := mem_range_iff (x.kernel.pool g.name) hp k
    by_cases hin : i ≤ k ∧ k < i + g.cnt
    · rw [if_pos hin]
      refine ⟨fun h => by simp at h, ?_⟩
      rintro ⟨g', hg', -, hm⟩
      exact ((hi.separate.apart_of_mem_erase hg hg').not_mem (hcov.mpr hin) hm).elim
    · rw [if_neg hin, hi.bits g.name k hk]
      constructor
      · rintro ⟨g', hg', hname, hm⟩
        have hne : g' ≠ g := by
          rintro rfl
          exact hin (hcov.mp hm)
        exact ⟨g', (List.mem_erase_of_ne hne).mpr hg', hname, hm⟩
      · rintro ⟨g', hg', hname, hm⟩
        exact ⟨g', List.mem_of_mem_erase hg', hname, hm⟩
  · intro g' hne
    exact List.mem_erase_of_ne fun h => hne (h ▸ rfl)

lemma inv_init (h : system.init x) : Inv x := by
  obtain ⟨hout, policy, m, c, ram, limit, hinit⟩ := h
  have hi := pallocInit_initialized hinit
  refine ⟨hi.layout, by simp [hout], by simp [hout, Separate], ?_⟩
  intro name i hlt
  simp [hi.clear name i hlt, hout]

lemma inv_next {y : Machine} (hi : Inv x) (a : Call) (h : next x a = some y) : Inv y := by
  cases a with
  | get flags pageCnt =>
    by_cases hn : pageCnt.toNat = 0
    · simp only [next, pallocGetMultiple, hn, if_true, Option.some.injEq] at h
      exact h ▸ hi
    · have hpos : 0 < pageCnt.toNat := Nat.pos_of_ne_zero hn
      by_cases hc : CursorLegal x.kernel flags
      · rcases get_cases hpos (hi.layout.pool _) hc with
          ⟨idx, c, t, hf, hs, hu, -, he⟩ | ⟨-, ⟨-, t, hu, -, he⟩ | ⟨-, he⟩⟩
        · simp only [next, he, pageAddr_ne_zero (hi.layout.pool _) idx, if_false,
            Option.some.injEq] at h
          exact h ▸ hi.get_success hpos hf hs hu
        · simp only [next, he, if_true, Option.some.injEq] at h
          subst h
          exact hi.of_updates hu rfl hi.separate hi.groups (hi.bits _) fun _ _ => Iff.rfl
        · simp [next, he] at h
      · simp [next, get_panics hpos hc] at h
  | free g =>
    by_cases hg : g ∈ x.out
    · obtain ⟨t, he, ht⟩ := hi.free_success hg
      simp only [next, hg, if_true, he, Option.some.injEq] at h
      exact h ▸ ht
    · simp [next, hg] at h

lemma inv_reachable (h : system.Reachable x) : Inv x :=
  System.Reachable.invariant (fun _ => inv_init) (fun _ a _ hi hn => inv_next hi a hn) h

/-- What a call for `n` pages owes its caller: a group when the selected map has room, and otherwise
a null pointer or the panic that `PAL_ASSERT` asks for. -/
def GetContract (s : State) (flags : Flags) (n : Nat) : Prop :=
  ((∃ i, (s.pool (selectPool flags)).usedMap.Fits false n i) →
    ∃ p t, pallocGetMultiple s flags n = .ok (p, t) ∧ p ≠ 0) ∧
  ((¬ ∃ i, (s.pool (selectPool flags)).usedMap.Fits false n i) →
    (∃ t, pallocGetMultiple s flags n = .ok (0, t)) ∨
      (flags.palAssert = true ∧ pallocGetMultiple s flags n = .error .outOfPages))

theorem get_contract_iff_cursor_legal {x : Machine} (h : system.Reachable x) :
    (∀ (flags : Flags) (pageCnt : UInt32), 0 < pageCnt.toNat →
      (GetContract x.kernel flags pageCnt.toNat ↔ CursorLegal x.kernel flags)) ∧
    ∀ g ∈ x.out, ∃ t, pallocFreeMultiple x.kernel g.pages g.cnt = .ok t := by
  have hi := inv_reachable h
  refine ⟨fun flags pageCnt hn => ⟨fun hget => ?_, fun hc => ?_⟩, fun g hg => ?_⟩
  · by_contra hc
    have hp := get_panics hn hc
    by_cases hfit : ∃ i, (x.kernel.pool (selectPool flags)).usedMap.Fits false pageCnt.toNat i
    · obtain ⟨p, t, he, -⟩ := hget.1 hfit
      simp [hp] at he
    · rcases hget.2 hfit with ⟨t, he⟩ | ⟨-, he⟩ <;> simp [hp] at he
  · rcases get_cases hn (hi.layout.pool _) hc with
      ⟨idx, c, t, hf, hs, hu, -, he⟩ | ⟨hnone, hcase⟩
    · exact ⟨fun _ => ⟨_, t, he, pageAddr_ne_zero (hi.layout.pool _) idx⟩,
        fun hno => (hno ⟨idx, hf⟩).elim⟩
    · refine ⟨fun ⟨k, hk⟩ => (hnone k hk).elim, fun _ => ?_⟩
      rcases hcase with ⟨-, t, -, -, he⟩ | hassert
      · exact .inl ⟨t, he⟩
      · exact .inr hassert
  · obtain ⟨t, he, -⟩ := hi.free_success hg
    exact ⟨t, he⟩

lemma cursor_lost (h : system.Reachable x) (hp : x.kernel.policy = .nextFit)
    {flags : Flags} {pageCnt : UInt32} {p : Nat}
    (he : pallocGetMultiple x.kernel flags pageCnt.toNat = .ok (p, t)) (hne : p ≠ 0)
    (flags' : Flags) : ¬ CursorLegal t flags' := by
  have hi := inv_reachable h
  have hn : 0 < pageCnt.toNat := by
    by_contra hz
    simp only [pallocGetMultiple, show pageCnt.toNat = 0 by omega, if_true, Except.ok.injEq,
      Prod.mk.injEq] at he
    exact hne he.1.symm
  have hc : CursorLegal x.kernel flags := by
    by_contra hc
    simp [get_panics hn hc] at he
  rcases get_cases hn (hi.layout.pool _) hc with
    ⟨idx, c, t', hf, hs, hu, hcur, he'⟩ | ⟨-, ⟨-, t', -, -, he'⟩ | ⟨-, he'⟩⟩
  · rw [he', Except.ok.injEq, Prod.mk.injEq] at he
    obtain ⟨-, rfl⟩ := he
    have hlow := (hi.layout.pool (selectPool flags)).low
    have hmap := (hi.layout.pool (selectPool flags)).map_lt
    have hshape := hu.shape hs.1 (selectPool flags')
    have hhigh := (hi.layout.pool (selectPool flags')).high
    simp only [pgSize] at hhigh
    rintro (hfirst | hle)
    · rw [hu.policy, hp] at hfirst
      simp at hfirst
    · rw [(hcur hp).1, hshape.2.2, Pool.pageAddr] at hle
      omega
  · rw [he', Except.ok.injEq, Prod.mk.injEq] at he
    exact (hne he.1.symm).elim
  · simp [he'] at he

def bootRun (policy : Policy) (ram : RamPages) (calls : List Call) : Option Machine :=
  match pallocInit policy (fun _ => 0) 0 ram 4294967295 with
  | .error _ => none
  | .ok s => system.exec ⟨s, []⟩ calls

lemma bootRun_reachable {policy : Policy} {ram : RamPages}
    (h : bootRun policy ram calls = some x) : system.Reachable x := by
  rw [bootRun] at h
  split at h
  · simp at h
  · next s hs => exact System.exec_reachable (.init ⟨rfl, _, _, _, _, _, hs⟩) h

lemma exists_of_bootRun {policy : Policy} {ram : RamPages} {p : Machine → Bool}
    (h : (bootRun policy ram calls).map p = some true) : ∃ x, system.Reachable x ∧ p x = true := by
  obtain ⟨x, hx, hp⟩ := Option.map_eq_some_iff.mp h
  exact ⟨x, bootRun_reachable hx, hp⟩

theorem get_contract_at_first_fit :
    ∃ x, system.Reachable x ∧ x.out = [⟨.kernelPool, 0xc0101000, 1⟩] ∧
      (GetContract x.kernel ⟨false, false, true⟩ (2 : UInt32).toNat ↔
        CursorLegal x.kernel ⟨false, false, true⟩) ∧
      ∀ g ∈ x.out, ∃ t, pallocFreeMultiple x.kernel g.pages g.cnt = .ok t := by
  obtain ⟨x, hr, hx⟩ := exists_of_bootRun (p := fun x => x.out == [⟨.kernelPool, 0xc0101000, 1⟩])
    (show (bootRun .firstFit ⟨264, by decide, by decide⟩ [.get ⟨false, false, false⟩ 1]).map _ = some true
      by decide +kernel)
  have hc := get_contract_iff_cursor_legal hr
  exact ⟨x, hr, by simpa using hx, hc.1 _ 2 (by decide), hc.2⟩

theorem next_fit_second_get_panics :
    ∃ x, system.Reachable x ∧ (x.kernel.pool .kernelPool).usedMap.Fits false 1 1 ∧
      pallocGetMultiple x.kernel ⟨false, false, false⟩ 1 = .error (.assertion .bitmapScanStart) ∧
      ¬ GetContract x.kernel ⟨false, false, false⟩ 1 := by
  obtain ⟨x, hr, hx⟩ := exists_of_bootRun
    (p := fun x => x.kernel.policy == .nextFit &&
      !(x.kernel.pool .kernelPool).usedMap.bit 1 &&
      (x.kernel.pool .kernelPool).usedMap.bitCnt == 3 && x.kernel.nextfitStart == 0xc0102000)
    (show (bootRun .nextFit ⟨264, by decide, by decide⟩ [.get ⟨false, false, false⟩ 1]).map _ = some true
      by decide +kernel)
  simp only [Bool.and_eq_true, beq_iff_eq, Bool.not_eq_true'] at hx
  obtain ⟨⟨⟨hp, hbit⟩, hcnt⟩, hcur⟩ := hx
  have hfit : (x.kernel.pool .kernelPool).usedMap.Fits false 1 1 := by
    refine ⟨by omega, fun j hj => ?_⟩
    obtain rfl : j = 0 := by omega
    exact hbit
  have hpanic : pallocGetMultiple x.kernel ⟨false, false, false⟩ 1 =
      .error (.assertion .bitmapScanStart) := by
    apply get_panics (by omega)
    rintro (hfirst | hle)
    · simp [hp] at hfirst
    · change _ ≤ (x.kernel.pool .kernelPool).usedMap.bitCnt at hle
      omega
  refine ⟨x, hr, hfit, hpanic, fun hget => ?_⟩
  obtain ⟨p, t, he, -⟩ := hget.1 ⟨1, hfit⟩
  simp [hpanic] at he

theorem outstanding_groups {x : Machine} (h : system.Reachable x) :
    Separate Group.range x.out ∧
    (∀ g ∈ x.out, g.range.Within (x.kernel.pool g.name).pageRange ∧
      g.range.Apart (x.kernel.pool g.name).mapRange ∧
      bitmapBufSize (x.kernel.pool g.name).usedMap.bitCnt ≤ (x.kernel.pool g.name).mapRange.size ∧
      ∀ name, name ≠ g.name → g.range.Apart (x.kernel.pool name).region) ∧
    ∀ name, ∀ i < (x.kernel.pool name).usedMap.bitCnt,
      ((x.kernel.pool name).usedMap.bit i = true ↔
        ∃ g ∈ x.out, g.name = name ∧ g.range.Mem ((x.kernel.pool name).pageAddr i)) := by
  have hi := inv_reachable h
  refine ⟨hi.separate, fun g hg => ⟨hi.within hg, ?_, (hi.layout.pool g.name).map_fits, ?_⟩, hi.bits⟩
  · exact (hi.within hg).apart
      ((x.kernel.pool g.name).pageRange_apart_mapRange (hi.layout.pool g.name))
  · exact fun name hne => hi.apart_other hg hne.symm

theorem outstanding_groups_after_calls :
    ∃ x, system.Reachable x ∧
      x.out = [⟨.userPool, 0xc0105000, 2⟩, ⟨.kernelPool, 0xc0101000, 1⟩] ∧
      Separate Group.range x.out ∧
      ∀ name, ∀ i < (x.kernel.pool name).usedMap.bitCnt,
        ((x.kernel.pool name).usedMap.bit i = true ↔
          ∃ g ∈ x.out, g.name = name ∧ g.range.Mem ((x.kernel.pool name).pageAddr i)) := by
  obtain ⟨x, hr, hx⟩ := exists_of_bootRun
    (p := fun x => x.out == [⟨.userPool, 0xc0105000, 2⟩, ⟨.kernelPool, 0xc0101000, 1⟩])
    (show (bootRun .firstFit ⟨264, by decide, by decide⟩
      [.get ⟨false, false, false⟩ 1, .get ⟨false, false, true⟩ 2]).map _ = some true
      by decide +kernel)
  have hg := outstanding_groups hr
  exact ⟨x, hr, by simpa using hx, hg.1, hg.2.2⟩

end Pintos.Palloc
