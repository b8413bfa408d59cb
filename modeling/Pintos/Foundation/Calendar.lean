import Mathlib.Algebra.Order.Ring.Nat
import Mathlib.Tactic.Common

/-! Dates of the Gregorian calendar, and the time since the start of a year. -/

namespace Pintos.Foundation

def IsLeap (year : Nat) : Prop := year % 4 = 0 ∧ (year % 100 ≠ 0 ∨ year % 400 = 0)

instance (year : Nat) : Decidable (IsLeap year) := inferInstanceAs (Decidable (_ ∧ _))

def yearLength (year : Nat) : Nat := if IsLeap year then 366 else 365

def monthLength (year : Nat) : Nat → Nat
  | 2 => if IsLeap year then 29 else 28
  | 4 | 6 | 9 | 11 => 30
  | _ => 31

structure DateTime where
  year : Nat
  month : Nat
  day : Nat
  hour : Nat
  minute : Nat
  second : Nat

structure DateTime.Valid (d : DateTime) : Prop where
  month : 1 ≤ d.month ∧ d.month ≤ 12
  day : 1 ≤ d.day ∧ d.day ≤ monthLength d.year d.month
  hour : d.hour < 24
  minute : d.minute < 60
  second : d.second < 60

def daysOfYears (epoch year : Nat) : Nat := ((List.range' epoch (year - epoch)).map yearLength).sum

def daysOfMonths (year month : Nat) : Nat := ((List.range' 1 (month - 1)).map (monthLength year)).sum

def DateTime.daysSince (d : DateTime) (epoch : Nat) : Nat :=
  daysOfYears epoch d.year + daysOfMonths d.year d.month + (d.day - 1)

def DateTime.secondsSince (d : DateTime) (epoch : Nat) : Nat :=
  86400 * d.daysSince epoch + 3600 * d.hour + 60 * d.minute + d.second

lemma monthLength_le (year month : Nat) : monthLength year month ≤ 31 := by
  rw [monthLength.eq_def]
  split
  · split <;> decide
  all_goals decide

lemma daysOfMonths_congr {year year' : Nat} (h : IsLeap year ↔ IsLeap year') (month : Nat) :
    daysOfMonths year month = daysOfMonths year' month := by
  have hlength : monthLength year = monthLength year' := by
    funext m
    simp only [monthLength, h]
  rw [daysOfMonths, daysOfMonths, hlength]

end Pintos.Foundation
