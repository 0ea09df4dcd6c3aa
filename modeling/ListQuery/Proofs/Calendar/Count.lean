import Mathlib.Algebra.BigOperators.Intervals
import ListQuery.Proofs.Calendar

/-!
# Counting days year by year and month by month

The day number of a date is computed without a loop over the years. Here it is
said by the lengths of all years and months that lie between a date and the
start of 1970.

* **`sum_yearLength`** — the lengths of consecutive years add up to the distance
  of their ends, by induction on the last one; each step is the leap rule
  (`daysBeforeYear_add_one`).
* **`daysBeforeMonth_add_one`** — the same for one month.
* **`Date.dayNumber_eq_daysToMonth`** — the headline, for dates before 1970 as
  for later ones.
* **`Date.dayNumber_next_month`** — days beyond the last one of a month are
  those of the next.
-/

namespace ListQuery.Calendar

open Finset (Ico)

/-! ## Years -/

/-- `yearLength` of consecutive years adds up to the distance of their ends, by
`daysBeforeYear`. Induction on the last year; each step is the leap rule. -/
theorem sum_yearLength {year year' : Nat} (h : year ≤ year') :
    ∑ y ∈ Ico year year', (yearLength y : Int) = daysBeforeYear year' - daysBeforeYear year := by
  induction year', h using Nat.le_induction with
  | base => simp
  | succ last hle ih =>
    have hstep : daysBeforeYear (last + 1 : Nat) = daysBeforeYear last + yearLength last :=
      daysBeforeYear_add_one last
    rw [Finset.sum_Ico_succ_top hle, ih, hstep]
    omega

/-! ## Months -/

/-- One stretch more adds its length to `totalLength`, and nothing where there
is none. Induction on the stretches. -/
theorem totalLength_take_succ (lengths : List Nat) (n : Nat) :
    totalLength (lengths.take (n + 1)) = totalLength (lengths.take n) + (lengths[n]?).getD 0 := by
  induction lengths generalizing n with
  | nil => simp [totalLength]
  | cons length rest ih =>
    cases n with
    | zero => simp [totalLength]
    | succ n =>
      have hrest := ih n
      rw [List.take_succ_cons, List.take_succ_cons, List.getElem?_cons_succ, totalLength,
        totalLength]
      omega

theorem daysBeforeMonth_add_one (leap : Bool) {month : Nat} (h : 1 ≤ month) :
    daysBeforeMonth leap (month + 1) = daysBeforeMonth leap month + monthLength leap month := by
  obtain ⟨n, rfl⟩ := Nat.exists_eq_add_of_le' h
  exact totalLength_take_succ (monthLengths leap) n

/-- `daysBeforeMonth` does not fall within a year. Induction on the later
month. -/
theorem daysBeforeMonth_mono (leap : Bool) {month month' : Nat} (h : 1 ≤ month)
    (hle : month ≤ month') : daysBeforeMonth leap month ≤ daysBeforeMonth leap month' := by
  induction month', hle using Nat.le_induction with
  | base => exact Nat.le_refl _
  | succ last hlast ih =>
    rw [daysBeforeMonth_add_one leap (Nat.le_trans h hlast)]
    exact Nat.le_trans ih (Nat.le_add_right _ _)

/-- A month is over before a later one of the same year starts: its
`monthLength` fits between the two. So dates of the calendar are in the order of
their months, whatever their days are. -/
theorem daysBeforeMonth_add_le_of_lt (leap : Bool) {month month' : Nat} (h : 1 ≤ month)
    (hlt : month < month') :
    daysBeforeMonth leap month + monthLength leap month ≤ daysBeforeMonth leap month' := by
  rw [← daysBeforeMonth_add_one leap h]
  exact daysBeforeMonth_mono leap (Nat.le_add_left 1 month) hlt

/-- The lengths of the months in front of one add up to the days before it.
Induction on the month, by `daysBeforeMonth_add_one`. -/
theorem sum_monthLength (leap : Bool) {month : Nat} (h : 1 ≤ month) :
    ∑ m ∈ Ico 1 month, (monthLength leap m : Int) = daysBeforeMonth leap month := by
  induction month, h using Nat.le_induction with
  | base => rfl
  | succ last hle ih =>
    rw [Finset.sum_Ico_succ_top hle, ih, daysBeforeMonth_add_one leap hle]
    omega

theorem le_monthLength (leap : Bool) : ∀ month ≤ 12, 1 ≤ month → 28 ≤ monthLength leap month := by
  cases leap <;> decide

theorem lt_of_monthLength_lt (leap : Bool) :
    ∀ month ≤ 12, monthLength leap month < 31 → month < 12 := by
  cases leap <;> decide

/-! ## Dates -/

/-- The days from the start of 1970 to the start of a month, counted back if the
year is earlier: the lengths of the years between them, and of the months before
this one in its own year. It is said without the closed form of `dayNumber`. -/
def daysToMonth (year month : Nat) : Int :=
  ∑ y ∈ Ico 1970 year, (yearLength y : Int) - ∑ y ∈ Ico year 1970, (yearLength y : Int) +
    ∑ m ∈ Ico 1 month, (monthLength (isLeap year) m : Int)

namespace Date

/-- **A day number counts days year by year and month by month**, for dates
before 1970 as for later ones. One of the two sums over years in `daysToMonth`
is always empty. -/
theorem dayNumber_eq_daysToMonth {year month day : Nat} (h : 1 ≤ month) :
    (⟨year, month, day⟩ : Date).dayNumber = daysToMonth year month + (day - 1) := by
  -- one of the two sums over years is empty
  have hyears : ∑ y ∈ Ico 1970 year, (yearLength y : Int) -
      ∑ y ∈ Ico year 1970, (yearLength y : Int) = daysBeforeYear year - epoch := by
    rcases Nat.le_total 1970 year with hle | hle
    · rw [sum_yearLength hle, Finset.Ico_eq_empty_of_le hle, Finset.sum_empty, Int.sub_zero]
      rfl
    · rw [sum_yearLength hle, Finset.Ico_eq_empty_of_le hle, Finset.sum_empty]
      show 0 - (epoch - _) = _
      omega
  rw [daysToMonth, hyears, sum_monthLength _ h]
  show daysBeforeYear year + daysBeforeMonth (isLeap year) month + (day - 1) - epoch = _
  omega

/-- `dayNumber` counts days on from the first one of a month, however many there
are. -/
theorem dayNumber_eq_first_add (year : Int) (month day : Nat) :
    (⟨year, month, day⟩ : Date).dayNumber = (⟨year, month, 1⟩ : Date).dayNumber + (day - 1) := by
  simp only [dayNumber]
  omega

/-- `dayNumber` takes the days beyond the last one of a month for those of the
next, in their order: the 31st of a month with 30 days is the first of the month
behind it. -/
theorem dayNumber_next_month {year : Int} {month day : Nat} (h : 1 ≤ month) :
    (⟨year, month + 1, day⟩ : Date).dayNumber =
      (⟨year, month, monthLength (isLeap year) month + day⟩ : Date).dayNumber := by
  simp only [dayNumber, daysBeforeMonth_add_one _ h]
  omega

end Date

end ListQuery.Calendar
