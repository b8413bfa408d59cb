import Mathlib.Order.Bounds.Defs
import Pintos.Kernel.BitmapScan

/-! Bitmaps against arrays of booleans. -/

namespace Pintos.Kernel

open Pintos.Foundation

variable {b : Bitmap}

section Booleans

variable {bs : List Bool} {start cnt k : Nat} {value : Bool}

def slice (bs : List Bool) (start cnt : Nat) : List Bool := (bs.drop start).take cnt

def setEach (bs : List Bool) (start cnt : Nat) (value : Bool) : List Bool :=
  (List.range cnt).foldl (fun bs i => bs.set (start + i) value) bs

def groups (bs : List Bool) (start cnt : Nat) (value : Bool) : Set Nat :=
  { i | start ≤ i ∧ i + cnt ≤ bs.length ∧ slice bs i cnt = List.replicate cnt value }

def firstGroup (bs : List Bool) (start cnt : Nat) (value : Bool) : Option Nat :=
  (List.range' start (bs.length + 1 - start)).find? fun i => slice bs i cnt = List.replicate cnt value

lemma slice_succ (h : k < bs.length) (n : Nat) : slice bs k (n + 1) = bs[k] :: slice bs (k + 1) n := by
  rw [slice, List.drop_eq_getElem_cons h, List.take_succ_cons]
  rfl

lemma length_slice (h : k + cnt ≤ bs.length) : (slice bs k cnt).length = cnt := by
  rw [slice, List.length_take, List.length_drop]
  omega

lemma getElem?_slice {j : Nat} (h : j < cnt) : (slice bs k cnt)[j]? = bs[k + j]? := by
  rw [slice, List.getElem?_take_of_lt h, List.getElem?_drop]

lemma mem_slice {v : Bool} : v ∈ slice bs k cnt ↔ ∃ j < cnt, bs[k + j]? = some v := by
  rw [List.mem_iff_getElem?]
  constructor
  · rintro ⟨j, hj⟩
    have hlt : j < cnt := by
      have hlen := (List.getElem?_eq_some_iff.mp hj).1
      rw [slice, List.length_take] at hlen
      omega
    exact ⟨j, hlt, getElem?_slice hlt ▸ hj⟩
  · rintro ⟨j, hlt, hj⟩
    exact ⟨j, (getElem?_slice hlt).trans hj⟩

@[simp] lemma length_setEach (bs : List Bool) (start cnt : Nat) (value : Bool) :
    (setEach bs start cnt value).length = bs.length := by
  induction cnt with
  | zero => rfl
  | succ n ih =>
    rw [setEach, List.range_succ, List.foldl_append, List.foldl_cons, List.foldl_nil, List.length_set]
    exact ih

lemma getElem?_setEach (hk : k < bs.length) :
    (setEach bs start cnt value)[k]? = if start ≤ k ∧ k < start + cnt then some value else bs[k]? := by
  induction cnt with
  | zero => exact (if_neg (by omega)).symm
  | succ n ih =>
    have hstep : setEach bs start (n + 1) value = (setEach bs start n value).set (start + n) value := by
      rw [setEach, List.range_succ, List.foldl_append, List.foldl_cons, List.foldl_nil]
      rfl
    rw [hstep, List.getElem?_set, length_setEach]
    by_cases he : start + n = k
    · rw [if_pos he, if_pos (by omega), if_pos (by omega)]
    · rw [if_neg he, ih]
      exact if_congr (by omega) rfl rfl

lemma setEach_all (bs : List Bool) (value : Bool) :
    setEach bs 0 bs.length value = List.replicate bs.length value := by
  apply List.ext_getElem?
  intro k
  by_cases hk : k < bs.length
  · rw [getElem?_setEach hk, if_pos (by omega), List.getElem?_replicate, if_pos hk]
  · rw [List.getElem?_eq_none (by rw [length_setEach]; omega),
      List.getElem?_eq_none (by rw [List.length_replicate]; omega)]

lemma slice_eq_replicate (h : k + cnt ≤ bs.length) :
    slice bs k cnt = List.replicate cnt value ↔ ∀ j < cnt, bs[k + j]? = some value := by
  rw [List.eq_replicate_iff, length_slice h, and_iff_right rfl]
  constructor
  · intro hall j hj
    have hlt : k + j < bs.length := by omega
    have hmem : bs[k + j] ∈ slice bs k cnt := mem_slice.mpr ⟨j, hj, List.getElem?_eq_getElem hlt⟩
    rw [List.getElem?_eq_getElem hlt, hall _ hmem]
  · intro hall v hv
    obtain ⟨j, hj, hget⟩ := mem_slice.mp hv
    exact Option.some.inj (hget.symm.trans (hall j hj))

lemma mem_groups_iff {i : Nat} : i ∈ groups bs start cnt value ↔
    i ∈ List.range' start (bs.length + 1 - start) ∧ slice bs i cnt = List.replicate cnt value := by
  rw [List.mem_range'_1]
  constructor
  · rintro ⟨hs, hle, hslice⟩
    exact ⟨by omega, hslice⟩
  · rintro ⟨⟨hs, hlt⟩, hslice⟩
    have hlen := congrArg List.length hslice
    rw [List.length_replicate, slice, List.length_take, List.length_drop] at hlen
    exact ⟨hs, by omega, hslice⟩

lemma firstGroup_eq_some {i : Nat} :
    firstGroup bs start cnt value = some i ↔ IsLeast (groups bs start cnt value) i := by
  rw [firstGroup, List.find?_range'_eq_some]
  constructor
  · rintro ⟨hp, hmem, hleast⟩
    refine ⟨mem_groups_iff.mpr ⟨hmem, of_decide_eq_true hp⟩, fun j hj => ?_⟩
    by_contra hlt
    have hno := hleast j hj.1 (Nat.lt_of_not_le hlt)
    exact absurd hj.2.2 (by simpa using hno)
  · rintro ⟨hmem, hleast⟩
    obtain ⟨hrange, hslice⟩ := mem_groups_iff.mp hmem
    refine ⟨decide_eq_true hslice, hrange, fun j hs hlt => ?_⟩
    have hno : slice bs j cnt ≠ List.replicate cnt value := by
      intro hslice'
      have hj : j ∈ List.range' start (bs.length + 1 - start) := by
        rw [List.mem_range'_1] at hrange ⊢
        omega
      exact absurd (hleast (mem_groups_iff.mpr ⟨hj, hslice'⟩)) (by omega)
    simpa using hno

lemma firstGroup_eq_none : firstGroup bs start cnt value = none ↔ groups bs start cnt value = ∅ := by
  rw [firstGroup, List.find?_eq_none, Set.eq_empty_iff_forall_notMem]
  constructor
  · intro hnone i hi
    obtain ⟨hrange, hslice⟩ := mem_groups_iff.mp hi
    exact hnone i hrange (decide_eq_true hslice)
  · intro hempty i hrange hp
    exact hempty i (mem_groups_iff.mpr ⟨hrange, of_decide_eq_true hp⟩)

end Booleans

section Represented

variable {c : Bitmap} {start cnt : Nat} {value : Bool}

def Bitmap.booleans (b : Bitmap) : List Bool := (List.range b.bitCnt).map b.bit

@[simp] lemma length_booleans (b : Bitmap) : b.booleans.length = b.bitCnt := by
  rw [Bitmap.booleans, List.length_map, List.length_range]

lemma getElem?_booleans {k : Nat} (h : k < b.bitCnt) : b.booleans[k]? = some (b.bit k) := by
  rw [Bitmap.booleans, List.getElem?_map, List.getElem?_range h, Option.map_some]

lemma booleans_eq {bs : List Bool} (hlen : bs.length = b.bitCnt) (h : ∀ k < b.bitCnt, bs[k]? = some (b.bit k)) :
    b.booleans = bs := by
  apply List.ext_getElem?
  intro k
  by_cases hk : k < b.bitCnt
  · rw [getElem?_booleans hk, h k hk]
  · rw [List.getElem?_eq_none (by rw [length_booleans]; omega), List.getElem?_eq_none (by omega)]

lemma Bitmap.Sets.booleans (h : b.Sets c start cnt value) : c.booleans = setEach b.booleans start cnt value := by
  apply booleans_eq
  · rw [length_setEach, length_booleans, h.1]
  · intro k hk
    rw [h.1] at hk
    rw [getElem?_setEach (by rwa [length_booleans]), h.2 k hk, getElem?_booleans hk, ← apply_ite some]

lemma booleans_flip (b : Bitmap) (i : Nat) : (bitmapFlip b i).booleans = b.booleans.modify i not := by
  apply booleans_eq
  · rw [List.length_modify, length_booleans]
    rfl
  · intro k hk
    have hk' : k < b.bitCnt := hk
    rw [List.getElem?_modify, getElem?_booleans hk', bit_flip b hk']
    by_cases he : i = k
    · simp [he]
    · simp [he, Ne.symm he]

lemma bitmapSetAll_booleans (b : Bitmap) (value : Bool) : ∃ c, bitmapSetAll b value = .ok c ∧
    c.bitCnt = b.bitCnt ∧ c.booleans = List.replicate b.bitCnt value := by
  obtain ⟨c, hrun, hs⟩ := bitmapSetMultiple_eq b 0 b.bitCnt value (Nat.le_of_eq (Nat.zero_add _))
  refine ⟨c, hrun, hs.1, ?_⟩
  have hall := setEach_all b.booleans value
  rw [length_booleans] at hall
  rw [hs.booleans, hall]

lemma fits_iff {i : Nat} : b.Fits value cnt i ↔
    i + cnt ≤ b.bitCnt ∧ slice b.booleans i cnt = List.replicate cnt value := by
  rw [Bitmap.Fits]
  refine and_congr_right fun hle => ?_
  rw [slice_eq_replicate (by rwa [length_booleans])]
  refine forall₂_congr fun j hj => ?_
  rw [getElem?_booleans (by omega), Option.some.injEq]

lemma bitmapScan_booleans (cnt : Nat) (value : Bool) (h : start ≤ b.bitCnt) :
    bitmapScan b start cnt value = .ok ((firstGroup b.booleans start cnt value).getD bitmapError) := by
  obtain ⟨idx, hrun, hs⟩ := bitmapScan_eq b cnt value h
  rw [hrun]
  rcases hs with ⟨rfl, hnone⟩ | ⟨hne, hle, hfit, hleast⟩
  · have hempty : firstGroup b.booleans start cnt value = none := by
      rw [firstGroup_eq_none, Set.eq_empty_iff_forall_notMem]
      rintro i ⟨hs, hlen, hslice⟩
      exact hnone i hs (fits_iff.mpr ⟨by rwa [← length_booleans], hslice⟩)
    rw [hempty]
    rfl
  · have hfirst : firstGroup b.booleans start cnt value = some idx := by
      rw [firstGroup_eq_some]
      obtain ⟨hlen, hslice⟩ := fits_iff.mp hfit
      refine ⟨⟨hle, by rwa [length_booleans], hslice⟩, ?_⟩
      rintro i ⟨hs, hlen', hslice'⟩
      by_contra hlt
      exact hleast i hs (Nat.lt_of_not_le hlt) (fits_iff.mpr ⟨by rwa [← length_booleans], hslice'⟩)
    rw [hfirst]
    rfl

lemma firstGroup_bounds {idx : Nat} (h : firstGroup b.booleans start cnt value = some idx) :
    idx + cnt ≤ b.bitCnt ∧ idx ≠ bitmapError := by
  have hb := b.bitCnt_lt
  have hlen := (firstGroup_eq_some.mp h).1.2.1
  rw [length_booleans] at hlen
  refine ⟨hlen, ?_⟩
  simp only [bitmapError]
  omega

lemma countLoop_eq (n i valueCnt : Nat) (h : start + i + n ≤ b.bitCnt) :
    countLoop b start value n i valueCnt = .ok (valueCnt + (slice b.booleans (start + i) n).count value) := by
  induction n generalizing i valueCnt with
  | zero => rfl
  | succ n ih =>
    have hb := b.bitCnt_lt
    have hlt : start + i < b.booleans.length := by
      rw [length_booleans]
      omega
    have hbit : b.booleans[start + i] = b.bit (start + i) := by
      have hget := getElem?_booleans (show start + i < b.bitCnt by omega)
      rw [List.getElem?_eq_getElem hlt] at hget
      exact Option.some.inj hget
    rw [countLoop, wrap_of_lt (by omega), bitmapTest_eq b (by omega), bind_ok, slice_succ hlt, List.count_cons, hbit,
      ih (i + 1) _ (by omega), ih (i + 1) _ (by omega), Nat.add_assoc start i 1]
    split
    · congr 1
      omega
    · rfl

lemma bitmapCount_booleans (h : start + cnt ≤ b.bitCnt) :
    bitmapCount b start cnt value = .ok ((slice b.booleans start cnt).count value) := by
  have hb := b.bitCnt_lt
  rw [bitmapCount, assertThat_pos (by omega), bind_ok, wrap_of_lt (by omega), assertThat_pos h, bind_ok,
    countLoop_eq cnt 0 0 h, Nat.zero_add, Nat.add_zero]

lemma bitmapContains_booleans (h : start + cnt ≤ b.bitCnt) :
    bitmapContains b start cnt value = .ok (decide (value ∈ slice b.booleans start cnt)) := by
  obtain ⟨r, hrun, hr⟩ := bitmapContains_eq b start cnt value h
  have hmem : (∃ j < cnt, b.bit (start + j) = value) ↔ value ∈ slice b.booleans start cnt := by
    rw [mem_slice]
    refine exists_congr fun j => and_congr_right fun hj => ?_
    rw [getElem?_booleans (by omega), Option.some.injEq]
  rw [hrun]
  exact congrArg Except.ok (Bool.eq_iff_iff.mpr (hr.trans (hmem.trans decide_eq_true_iff.symm)))

lemma bitmapAny_booleans (h : start + cnt ≤ b.bitCnt) :
    bitmapAny b start cnt = .ok ((slice b.booleans start cnt).any id) := by
  rw [bitmapAny, bitmapContains_booleans h]
  apply congrArg Except.ok
  rw [Bool.eq_iff_iff]
  simp

lemma bitmapNone_booleans (h : start + cnt ≤ b.bitCnt) :
    bitmapNone b start cnt = .ok (!(slice b.booleans start cnt).any id) := by
  rw [bitmapNone, ← bitmapAny, bitmapAny_booleans h, bind_ok, pure_eq_ok]

lemma bitmapAll_booleans (h : start + cnt ≤ b.bitCnt) :
    bitmapAll b start cnt = .ok ((slice b.booleans start cnt).all id) := by
  rw [bitmapAll, bitmapContains_booleans h, bind_ok, pure_eq_ok]
  apply congrArg Except.ok
  rw [Bool.eq_iff_iff]
  simp

end Represented

inductive BitOp
  | set (idx : Nat) (value : Bool)
  | mark (idx : Nat)
  | reset (idx : Nat)
  | flip (idx : Nat)
  | setMultiple (start cnt : Nat) (value : Bool)
  | scanAndFlip (start cnt : Nat) (value : Bool)

namespace BitOp

def InRange (bitCnt : Nat) : BitOp → Prop
  | set idx _ | mark idx | reset idx | flip idx => idx < bitCnt
  | setMultiple start cnt _ => start + cnt ≤ bitCnt
  | scanAndFlip start _ _ => start ≤ bitCnt

def run (b : Bitmap) : BitOp → Except Panic Bitmap
  | set idx value => bitmapSet b idx value
  | mark idx => return bitmapMark b idx
  | reset idx => return bitmapReset b idx
  | flip idx => return bitmapFlip b idx
  | setMultiple start cnt value => bitmapSetMultiple b start cnt value
  | scanAndFlip start cnt value => return (← bitmapScanAndFlip b start cnt value).2

def apply (bs : List Bool) : BitOp → List Bool
  | set idx value => bs.set idx value
  | mark idx => bs.set idx true
  | reset idx => bs.set idx false
  | flip idx => bs.modify idx not
  | setMultiple start cnt value => setEach bs start cnt value
  | scanAndFlip start cnt value =>
    match firstGroup bs start cnt value with
    | some idx => setEach bs idx cnt !value
    | none => bs

end BitOp

lemma sets_mark {idx : Nat} : b.Sets (bitmapMark b idx) idx 1 true :=
  ⟨rfl, fun k hk => by
    rw [bit_mark b hk]
    exact if_congr (by omega) rfl rfl⟩

lemma sets_reset {idx : Nat} : b.Sets (bitmapReset b idx) idx 1 false :=
  ⟨rfl, fun k hk => by
    rw [bit_reset b hk]
    exact if_congr (by omega) rfl rfl⟩

lemma BitOp.run_booleans {op : BitOp} (h : op.InRange b.bitCnt) :
    ∃ c, op.run b = .ok c ∧ c.bitCnt = b.bitCnt ∧ c.booleans = op.apply b.booleans := by
  cases op with
  | set idx value =>
    obtain ⟨c, hrun, hs⟩ := bitmapSet_eq b value h
    exact ⟨c, hrun, hs.1, hs.booleans⟩
  | mark idx => exact ⟨_, rfl, rfl, sets_mark.booleans⟩
  | reset idx => exact ⟨_, rfl, rfl, sets_reset.booleans⟩
  | flip idx => exact ⟨_, rfl, rfl, booleans_flip b idx⟩
  | setMultiple start cnt value =>
    obtain ⟨c, hrun, hs⟩ := bitmapSetMultiple_eq b start cnt value h
    exact ⟨c, hrun, hs.1, hs.booleans⟩
  | scanAndFlip start cnt value =>
    have hscan := bitmapScan_booleans cnt value h
    simp only [run, apply, bitmapScanAndFlip, hscan, bind_ok]
    cases hfirst : firstGroup b.booleans start cnt value with
    | none => exact ⟨b, rfl, rfl, rfl⟩
    | some idx =>
      obtain ⟨hlen, hne⟩ := firstGroup_bounds hfirst
      obtain ⟨c, hset, hs⟩ := bitmapSetMultiple_eq b idx cnt (!value) hlen
      simp only [Option.getD_some, if_pos hne, hset, bind_ok]
      exact ⟨c, rfl, hs.1, hs.booleans⟩

def runAll : Bitmap → List BitOp → Except Panic Bitmap
  | b, [] => return b
  | b, op :: ops => do runAll (← op.run b) ops

lemma runAll_booleans {ops : List BitOp} (h : ∀ op ∈ ops, op.InRange b.bitCnt) :
    ∃ c, runAll b ops = .ok c ∧ c.bitCnt = b.bitCnt ∧ c.booleans = ops.foldl BitOp.apply b.booleans := by
  induction ops generalizing b with
  | nil => exact ⟨b, rfl, rfl, rfl⟩
  | cons op ops ih =>
    obtain ⟨c, hrun, hcnt, hbools⟩ := BitOp.run_booleans (h op List.mem_cons_self)
    obtain ⟨d, hrest, hcnt', hbools'⟩ := ih (b := c) fun op' hop => hcnt ▸ h op' (List.mem_cons_of_mem _ hop)
    refine ⟨d, ?_, hcnt'.trans hcnt, ?_⟩
    · rw [runAll, hrun, bind_ok, hrest]
    · rw [hbools', hbools, List.foldl_cons]

lemma bitmapCreate_booleans {bitCnt : Nat} (hlt : bitCnt < 4294967296) (grantsMap grantsBits : Bool)
    (junk : Nat → BitVec 32) : ∃ r, bitmapCreate bitCnt hlt grantsMap grantsBits junk = .ok r ∧
      ∀ b, r = some b → b.bitCnt = bitCnt ∧ b.booleans = List.replicate bitCnt false := by
  rw [bitmapCreate]
  split
  · split
    · obtain ⟨c, hrun, hcnt, hbools⟩ := bitmapSetAll_booleans _ false
      rw [hrun, bind_ok]
      refine ⟨some c, rfl, ?_⟩
      rintro _ ⟨⟩
      exact ⟨hcnt, hbools⟩
    · exact ⟨none, rfl, fun _ h => nomatch h⟩
  · exact ⟨none, rfl, fun _ h => nomatch h⟩

theorem bitmap_refines_booleans :
    (∀ (bitCnt : Nat) (hlt : bitCnt < 4294967296) (grantsMap grantsBits : Bool) (junk : Nat → BitVec 32),
      ∃ r, bitmapCreate bitCnt hlt grantsMap grantsBits junk = .ok r ∧
        ∀ b, r = some b → b.bitCnt = bitCnt ∧ b.booleans = List.replicate bitCnt false) ∧
    ∀ (b : Bitmap) (ops : List BitOp), (∀ op ∈ ops, op.InRange b.bitCnt) →
      ∃ c, runAll b ops = .ok c ∧ c.bitCnt = b.bitCnt ∧ c.booleans = ops.foldl BitOp.apply b.booleans ∧
        (∀ start cnt value, start + cnt ≤ c.bitCnt →
          bitmapCount c start cnt value = .ok ((slice c.booleans start cnt).count value) ∧
          bitmapContains c start cnt value = .ok (decide (value ∈ slice c.booleans start cnt)) ∧
          bitmapAny c start cnt = .ok ((slice c.booleans start cnt).any id) ∧
          bitmapNone c start cnt = .ok (!(slice c.booleans start cnt).any id) ∧
          bitmapAll c start cnt = .ok ((slice c.booleans start cnt).all id)) ∧
        ∀ start cnt value, start ≤ c.bitCnt → ∃ idx, bitmapScan c start cnt value = .ok idx ∧
          (idx = bitmapError ↔ groups c.booleans start cnt value = ∅) ∧
          (idx ≠ bitmapError → IsLeast (groups c.booleans start cnt value) idx) := by
  refine ⟨fun _ hlt => bitmapCreate_booleans hlt, fun b ops hops => ?_⟩
  obtain ⟨c, hrun, hcnt, hbools⟩ := runAll_booleans hops
  refine ⟨c, hrun, hcnt, hbools, fun start cnt value h => ?_, fun start cnt value h => ?_⟩
  · exact ⟨bitmapCount_booleans h, bitmapContains_booleans h, bitmapAny_booleans h, bitmapNone_booleans h,
      bitmapAll_booleans h⟩
  · refine ⟨_, bitmapScan_booleans cnt value h, ?_⟩
    cases hfirst : firstGroup c.booleans start cnt value with
    | none => exact ⟨iff_of_true rfl (firstGroup_eq_none.mp hfirst), fun hne => absurd rfl hne⟩
    | some idx =>
      have hleast := firstGroup_eq_some.mp hfirst
      refine ⟨iff_of_false (firstGroup_bounds hfirst).2 fun hempty => ?_, fun _ => hleast⟩
      exact Set.notMem_empty idx (hempty ▸ hleast.1)

theorem bitmap_refines_booleans_forty : ∃ b c, bitmapCreate 40 (by decide) true true (fun _ => 7#32) = .ok (some b) ∧
    runAll b [.setMultiple 3 35 true, .flip 33, .scanAndFlip 1 2 false] = .ok c ∧
      c.booleans = false :: List.replicate 32 true ++ false :: List.replicate 4 true ++ [false, false] ∧
        bitmapCount c 0 40 true = .ok 36 := by
  obtain ⟨hcreate, hruns⟩ := bitmap_refines_booleans
  obtain ⟨r, hr, hb⟩ := hcreate 40 (by decide) true true fun _ => 7#32
  obtain ⟨b, rfl⟩ : ∃ b, r = some b := by
    apply Option.ne_none_iff_exists'.mp
    rintro rfl
    rw [bitmapCreate, if_pos rfl, dif_pos (by decide)] at hr
    obtain ⟨c, -, hc⟩ := bind_eq_ok.mp hr
    cases hc
  obtain ⟨hcnt, hbools⟩ := hb b rfl
  obtain ⟨c, hrun, hcnt', hfinal, hquery, -⟩ := hruns b [.setMultiple 3 35 true, .flip 33, .scanAndFlip 1 2 false]
    (by rw [hcnt]; simp [BitOp.InRange])
  rw [hbools] at hfinal
  have hbits : c.booleans = false :: List.replicate 32 true ++ false :: List.replicate 4 true ++ [false, false] :=
    hfinal.trans (by decide)
  obtain ⟨hcount, -⟩ := hquery 0 40 true (by rw [hcnt', hcnt])
  exact ⟨b, c, hr, hrun, hbits, hcount.trans (by rw [hbits]; decide)⟩

end Pintos.Kernel
