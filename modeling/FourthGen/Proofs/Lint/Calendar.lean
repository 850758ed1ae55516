import FourthGen.Lint.Date
import Mathlib

set_option autoImplicit false

/-! # The calendar has the dates of the Gregorian calendar

The dates that the line rules accept are those of the proleptic Gregorian calendar with a year zero, as the
standard library has it (`Calendar.isDate_iff`). -/

namespace FourthGen.Calendar

open Std.Time

theorem isLeapYear_eq (year : Nat) : isLeapYear year = (Year.Offset.ofNat year).isLeap := by
  have hmod (n : Nat) : (Year.Offset.ofNat year).toInt.tmod n = (year % n : Nat) := rfl
  have h4 := hmod 4
  have h100 := hmod 100
  have h400 := hmod 400
  simp only [Nat.cast_ofNat] at h4 h100 h400
  rw [Bool.eq_iff_iff, Year.Offset.isLeap, h4, h100, h400, decide_eq_true_iff]
  simp only [isLeapYear, Bool.or_eq_true, Bool.and_eq_true, beq_iff_eq, bne_iff_ne]
  omega

theorem daysInMonth_eq (year : Nat) (month : Month.Ordinal) :
    (daysInMonth year month.val.toNat : Int) = (month.days (isLeapYear year)).val := by
  obtain ⟨n, hlow, hhigh⟩ := month
  have hcases : n = 1 ∨ n = 2 ∨ n = 3 ∨ n = 4 ∨ n = 5 ∨ n = 6 ∨ n = 7 ∨ n = 8 ∨ n = 9 ∨ n = 10 ∨
      n = 11 ∨ n = 12 := by omega
  rcases hcases with rfl | rfl | rfl | rfl | rfl | rfl | rfl | rfl | rfl | rfl | rfl | rfl
  case inr.inl =>
    simp only [daysInMonth, Int.reduceToNat]
    cases isLeapYear year <;> rfl
  all_goals cases isLeapYear year <;> rfl

theorem month_of_daysInMonth_pos {year month : Nat} (h : 0 < daysInMonth year month) :
    1 ≤ month ∧ month ≤ 12 := by
  unfold daysInMonth at h
  split at h <;> omega

theorem isDate_eq_true_iff {year month day : Nat} :
    isDate year month day = true ↔ 1 ≤ day ∧ day ≤ daysInMonth year month := by
  rw [isDate, Bool.and_eq_true, decide_eq_true_iff, decide_eq_true_iff]

/-- The calendar has the dates of the proleptic Gregorian calendar. -/
theorem isDate_iff {year month day : Nat} :
    isDate year month day = true ↔ ∃ date : PlainDate, date.year.toInt = year ∧
      date.month.val = month ∧ date.day.val = day := by
  rw [isDate_eq_true_iff]
  constructor
  · rintro ⟨hday, hdays⟩
    obtain ⟨hlow, hhigh⟩ := month_of_daysInMonth_pos (Nat.lt_of_lt_of_le hday hdays)
    let ordinal : Month.Ordinal := ⟨month, by omega, by omega⟩
    have hordinal : (daysInMonth year month : Int) = (ordinal.days (isLeapYear year)).val :=
      daysInMonth_eq year ordinal
    have hmax := (ordinal.days (isLeapYear year)).property.2
    refine ⟨⟨Year.Offset.ofNat year, ordinal, ⟨day, by omega, by omega⟩, ?_⟩, rfl, rfl, rfl⟩
    show (day : Int) ≤ (ordinal.days (Year.Offset.ofNat year).isLeap).val
    rw [← isLeapYear_eq]
    omega
  · rintro ⟨⟨dateYear, dateMonth, dateDay, hvalid⟩, hyear, hmonth, hday⟩
    simp only at hyear hmonth hday
    have hleap : dateYear.isLeap = isLeapYear year := by
      rw [isLeapYear_eq]
      congr 1
    have hdays := daysInMonth_eq year dateMonth
    have hle : dateDay.val ≤ (dateMonth.days dateYear.isLeap).val := hvalid
    have hpos := dateDay.property.1
    rw [hleap, ← hdays, hmonth, Int.toNat_natCast] at hle
    omega

/-- The year zero is a leap year. -/
example : isDate 0 2 29 = true ∧ isDate 1900 2 29 = false := by decide

end FourthGen.Calendar
