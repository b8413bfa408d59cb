import Pintos.Foundation.Bytes
import Pintos.Foundation.Calendar
import Pintos.Kernel.Machine

/-! The time that the kernel reads from the real time clock. -/

namespace Pintos.Devices

open Pintos.Foundation Pintos.Kernel

def bcdToBin (x : Byte) : Int := (x &&& 0x0f).toNat + (x >>> 4).toNat * 10

def rtcRegSec : Nat := 0

def rtcRegMin : Nat := 2

def rtcRegHour : Nat := 4

def rtcRegMday : Nat := 7

def rtcRegMon : Nat := 8

def rtcRegYear : Nat := 9

structure Components where
  sec : Int
  min : Int
  hour : Int
  mday : Int
  mon : Int
  year : Int

/-- `cmos k index` is what the `k`-th read of a register answers. -/
def readComponents (cmos : Nat → Nat → Byte) : Nat → Nat → Option Components
  | 0, _ => none
  | fuel + 1, k =>
    let sec := bcdToBin (cmos k rtcRegSec)
    let min := bcdToBin (cmos (k + 1) rtcRegMin)
    let hour := bcdToBin (cmos (k + 2) rtcRegHour)
    let mday := bcdToBin (cmos (k + 3) rtcRegMday)
    let mon := bcdToBin (cmos (k + 4) rtcRegMon)
    let year := bcdToBin (cmos (k + 5) rtcRegYear)
    if sec ≠ bcdToBin (cmos (k + 6) rtcRegSec) then readComponents cmos fuel (k + 7)
    else some ⟨sec, min, hour, mday, mon, year⟩

def daysPerMonth : List Int := [31, 28, 31, 30, 31, 30, 31, 31, 30, 31, 30, 31]

/-- `time_t` is unsigned, and the products are computed as `int`. -/
def addInt (time : Nat) (i : Int) : Nat := wrap (time + ofInt32 i)

/-- The loop over the months; a month outside the table has no answer. -/
def addMonths (time : Nat) (mon : Int) : Option Nat :=
  (List.range' 1 mon.toNat).foldlM (fun time i =>
    (daysPerMonth[i - 1]?).map fun days => addInt time (days * 24 * 60 * 60)) time

def rtcGetTime (cmos : Nat → Nat → Byte) (fuel : Nat) : Option Nat := do
  let c ← readComponents cmos fuel 0
  let year := (if c.year < 70 then c.year + 100 else c.year) - 70
  let time := ofInt32 ((year * 365 + (year - 1).tdiv 4) * 24 * 60 * 60)
  let time ← addMonths time c.mon
  let time := if 2 < c.mon ∧ year.tmod 4 = 0 then addInt time (24 * 60 * 60) else time
  let time := addInt time ((c.mday - 1) * 24 * 60 * 60)
  let time := addInt time (c.hour * 60 * 60)
  let time := addInt time (c.min * 60)
  let time := addInt time c.sec
  return time

def bcd (n : Nat) : Byte := .ofNat 8 (n / 10 * 16 + n % 10)

structure Shows (cmos : Nat → Nat → Byte) (d : DateTime) : Prop where
  sec : ∀ k, cmos k rtcRegSec = bcd d.second
  min : ∀ k, cmos k rtcRegMin = bcd d.minute
  hour : ∀ k, cmos k rtcRegHour = bcd d.hour
  mday : ∀ k, cmos k rtcRegMday = bcd d.day
  mon : ∀ k, cmos k rtcRegMon = bcd d.month
  year : ∀ k, cmos k rtcRegYear = bcd (d.year % 100)

section Shown

variable {cmos : Nat → Nat → Byte} {d : DateTime}

lemma bcdToBin_bcd {n : Nat} (h : n < 100) : bcdToBin (bcd n) = n := by
  have hall : ∀ n < 100, bcdToBin (bcd n) = n := by decide +kernel
  exact hall n h

lemma readComponents_of_shows (h : Shows cmos d) (hd : d.Valid) (fuel : Nat) :
    readComponents cmos (fuel + 1) 0 =
      some ⟨d.second, d.minute, d.hour, d.day, d.month, (d.year % 100 : Nat)⟩ := by
  have hday := monthLength_le d.year d.month
  obtain ⟨hmon, hmday, hhour, hmin, hsec⟩ := hd
  rw [readComponents, if_neg (by rw [h.sec, h.sec]; exact not_not.mpr rfl)]
  simp only [h.sec, h.min, h.hour, h.mday, h.mon, h.year]
  rw [bcdToBin_bcd (by omega), bcdToBin_bcd (by omega), bcdToBin_bcd (by omega), bcdToBin_bcd (by omega),
    bcdToBin_bcd (by omega), bcdToBin_bcd (by omega)]

end Shown

section Sums

def daysThrough (month : Nat) : Nat := ((daysPerMonth.take month).map Int.toNat).sum

lemma addInt_eq {time n : Nat} {i : Int} (hi : i = n) (hsum : time + n < 4294967296) : addInt time i = time + n := by
  rw [addInt, hi, ofInt32_natCast (by omega), wrap_of_lt hsum]

lemma daysThrough_le {month : Nat} (h : month ≤ 12) : daysThrough month ≤ 365 := by
  have hall : ∀ m < 13, daysThrough m ≤ 365 := by decide +kernel
  exact hall month (by omega)

lemma addMonths_eq {time month : Nat} (hmonth : month ≤ 12) (htime : time < 4200000000) :
    addMonths time month = some (time + 86400 * daysThrough month) := by
  have hstep : ∀ m < 12, daysPerMonth[m]? = some ((daysThrough (m + 1) - daysThrough m : Nat) : Int) ∧
      daysThrough m ≤ daysThrough (m + 1) := by decide +kernel
  have hfold : ∀ m ≤ 12, (List.range' 1 m).foldlM
      (fun time i => (daysPerMonth[i - 1]?).map fun days => addInt time (days * 24 * 60 * 60)) time =
        some (time + 86400 * daysThrough m) := by
    intro m hm
    induction m with
    | zero => rfl
    | succ m ih =>
      obtain ⟨hdays, hle⟩ := hstep m (by omega)
      have hmax := daysThrough_le hm
      rw [List.range'_concat, List.foldlM_append, ih (by omega)]
      simp only [Nat.one_mul, Option.bind_eq_bind, Option.bind_some, List.foldlM_cons, List.foldlM_nil,
        Nat.add_sub_cancel_left, hdays, Option.map_some]
      rw [addInt_eq (n := 86400 * (daysThrough (m + 1) - daysThrough m)) (by omega) (by omega)]
      simp only [Option.pure_def, Option.some.injEq]
      omega
  rw [addMonths, Int.toNat_natCast]
  exact hfold month hmonth

end Sums

section Results

variable {cmos : Nat → Nat → Byte} {d : DateTime}

lemma tdiv_pred (y : Nat) : ((y : Int) - 1).tdiv 4 = ((y - 1) / 4 : Nat) := by
  cases y with
  | zero => rfl
  | succ y =>
    rw [Int.tdiv_eq_ediv_of_nonneg (by omega)]
    omega

def codeDays (d : DateTime) : Nat :=
  365 * (d.year - 1970) + (d.year - 1970 - 1) / 4 + daysThrough d.month +
    (if 2 < d.month ∧ (d.year - 1970) % 4 = 0 then 1 else 0) + (d.day - 1)

lemma rtcGetTime_eq (h : Shows cmos d) (hd : d.Valid) (hyear : 1970 ≤ d.year ∧ d.year ≤ 2037) (fuel : Nat) :
    rtcGetTime cmos (fuel + 1) = some (86400 * codeDays d + 3600 * d.hour + 60 * d.minute + d.second) := by
  have hlen := monthLength_le d.year d.month
  have hmax := daysThrough_le hd.month.2
  have hread := readComponents_of_shows h hd fuel
  obtain ⟨hmon, hday, hhour, hmin, hsec⟩ := hd
  obtain ⟨y, hy⟩ := Nat.exists_eq_add_of_le hyear.1
  have hy' : d.year - 1970 = y := by omega
  have hsince : (if ((d.year % 100 : Nat) : Int) < 70 then
      ((d.year % 100 : Nat) : Int) + 100 else (d.year % 100 : Nat)) - 70 = (y : Int) := by
    split <;> omega
  have hbase : ofInt32 (((y : Int) * 365 + ((y : Int) - 1).tdiv 4) * 24 * 60 * 60) =
      86400 * (365 * y + (y - 1) / 4) := by
    have hint : ((y : Int) * 365 + ((y - 1) / 4 : Nat)) * 24 * 60 * 60 = (86400 * (365 * y + (y - 1) / 4) : Nat) := by
      omega
    rw [tdiv_pred, hint, ofInt32_natCast (by omega)]
  have hmod : (y : Int).tmod 4 = 0 ↔ y % 4 = 0 := by
    rw [Int.tmod_eq_emod_of_nonneg (by omega)]
    omega
  simp only [rtcGetTime, hread, Option.bind_eq_bind, Option.bind_some, hsince, hbase,
    addMonths_eq hmon.2 (show 86400 * (365 * y + (y - 1) / 4) < 4200000000 by omega), hmod]
  have hleap : ∀ time, time < 4200000000 →
      (if 2 < (d.month : Int) ∧ y % 4 = 0 then addInt time (24 * 60 * 60) else time) =
      time + 86400 * if 2 < d.month ∧ y % 4 = 0 then 1 else 0 := by
    intro time htime
    by_cases hc : 2 < d.month ∧ y % 4 = 0
    · rw [if_pos (by omega), if_pos hc]
      exact addInt_eq rfl (by omega)
    · rw [if_neg (by omega), if_neg hc, Nat.mul_zero, Nat.add_zero]
  have hone : (if 2 < d.month ∧ y % 4 = 0 then 1 else 0) ≤ 1 := by split <;> decide
  rw [hleap _ (by omega), codeDays, hy']
  generalize (if 2 < d.month ∧ y % 4 = 0 then 1 else 0) = extra at hone ⊢
  have hdays : ∀ time, time < 4200000000 →
      addInt time (((d.day : Int) - 1) * 24 * 60 * 60) = time + 86400 * (d.day - 1) :=
    fun _ _ => addInt_eq (by omega) (by omega)
  have hhours : ∀ time, time < 4200000000 → addInt time ((d.hour : Int) * 60 * 60) = time + 3600 * d.hour :=
    fun _ _ => addInt_eq (by omega) (by omega)
  have hmins : ∀ time, time < 4200000000 → addInt time ((d.minute : Int) * 60) = time + 60 * d.minute :=
    fun _ _ => addInt_eq (by omega) (by omega)
  have hsecs : ∀ time, time < 4200000000 → addInt time (d.second : Int) = time + d.second :=
    fun _ _ => addInt_eq rfl (by omega)
  rw [hdays _ (by omega), hhours _ (by omega), hmins _ (by omega), hsecs _ (by omega)]
  simp only [Option.pure_def, Option.some.injEq]
  omega

lemma daysOfYears_eq (hyear : 1970 ≤ d.year ∧ d.year ≤ 2037) :
    daysOfYears 1970 d.year = 365 * (d.year - 1970) + (d.year - 1970 + 1) / 4 := by
  have hall : ∀ y < 68, daysOfYears 1970 (1970 + y) = 365 * y + (y + 1) / 4 := by decide +kernel
  obtain ⟨y, hy⟩ := Nat.exists_eq_add_of_le hyear.1
  rw [hy, Nat.add_sub_cancel_left]
  exact hall y (by omega)

lemma daysOfMonths_le {month : Nat} (year : Nat) (h : 1 ≤ month ∧ month ≤ 12) :
    daysOfMonths year month + 28 ≤ daysThrough month := by
  have hleap : ∀ m < 13, 1 ≤ m → daysOfMonths 2000 m + 28 ≤ daysThrough m := by decide +kernel
  have hplain : ∀ m < 13, 1 ≤ m → daysOfMonths 1999 m + 28 ≤ daysThrough m := by decide +kernel
  by_cases hy : IsLeap year
  · rw [daysOfMonths_congr (iff_of_true hy (show IsLeap 2000 by decide))]
    exact hleap month (by omega) h.1
  · rw [daysOfMonths_congr (iff_of_false hy (show ¬ IsLeap 1999 by decide))]
    exact hplain month (by omega) h.1

end Results

theorem rtc_get_time_too_late {cmos : Nat → Nat → Byte} {d : DateTime} (h : Shows cmos d) (hd : d.Valid)
    (hyear : 1970 ≤ d.year ∧ d.year ≤ 2037) :
    ∃ time, (∀ fuel, 0 < fuel → rtcGetTime cmos fuel = some time) ∧ d.secondsSince 1970 < time := by
  refine ⟨86400 * codeDays d + 3600 * d.hour + 60 * d.minute + d.second, fun fuel hfuel => ?_, ?_⟩
  · obtain ⟨n, rfl⟩ := Nat.exists_eq_add_of_lt hfuel
    exact rtcGetTime_eq h hd hyear (0 + n)
  · have hyears := daysOfYears_eq hyear
    have hmonths := daysOfMonths_le d.year hd.month
    rw [DateTime.secondsSince, DateTime.daysSince, hyears, codeDays]
    split <;> omega

def stillClock (d : DateTime) : Nat → Nat → Byte := fun _ index =>
  if index = rtcRegSec then bcd d.second
  else if index = rtcRegMin then bcd d.minute
  else if index = rtcRegHour then bcd d.hour
  else if index = rtcRegMday then bcd d.day
  else if index = rtcRegMon then bcd d.month
  else bcd (d.year % 100)

lemma stillClock_shows (d : DateTime) : Shows (stillClock d) d :=
  ⟨fun _ => rfl, fun _ => rfl, fun _ => rfl, fun _ => rfl, fun _ => rfl, fun _ => rfl⟩

theorem rtc_get_time_too_late_leap_day :
    ∃ time, rtcGetTime (stillClock ⟨2024, 2, 29, 12, 0, 0⟩) 1 = some time ∧ 1709208000 < time := by
  have hvalid : DateTime.Valid ⟨2024, 2, 29, 12, 0, 0⟩ := ⟨by decide, by decide, by decide, by decide, by decide⟩
  obtain ⟨time, hrun, hlt⟩ := rtc_get_time_too_late (stillClock_shows _) hvalid (by decide)
  have hsince : DateTime.secondsSince ⟨2024, 2, 29, 12, 0, 0⟩ 1970 = 1709208000 := by decide +kernel
  exact ⟨time, hrun 1 Nat.one_pos, hsince ▸ hlt⟩

theorem rtc_get_time_at_epoch :
    rtcGetTime (stillClock ⟨1970, 1, 1, 0, 0, 0⟩) 1 = some 2678400 ∧
      DateTime.secondsSince ⟨1970, 1, 1, 0, 0, 0⟩ 1970 = 0 ∧
      rtcGetTime (stillClock ⟨1970, 1, 31, 0, 0, 0⟩) 1 = some 5270400 ∧
      rtcGetTime (stillClock ⟨1970, 2, 1, 0, 0, 0⟩) 1 = some 5097600 := by
  decide +kernel

end Pintos.Devices
