import SeriesPipeline.Time.Calendar

/-!
# Days and dates

The date of a day is valid, and its day number is that day. For this the year of a day is shown to
have begun by it and to last beyond it, and so is the month.
-/

namespace SeriesPipeline.Calendar

variable {leap : Bool} {month m n : Nat}

def daysInYear (leap : Bool) : Nat := if leap then 366 else 365

theorem daysBeforeYear_succ (y : Int) :
    daysBeforeYear (y + 1) = daysBeforeYear y + daysInYear (isLeap y) := by
  -- a quotient grows by one exactly at the multiples of its divisor
  have hfour : y / 4 - (y - 1) / 4 = if y % 4 = 0 then 1 else 0 := by split <;> omega
  have hcentury : y / 100 - (y - 1) / 100 = if y % 100 = 0 then 1 else 0 := by split <;> omega
  have hcycle : y / 400 - (y - 1) / 400 = if y % 400 = 0 then 1 else 0 := by split <;> omega
  have hleap : (daysInYear (isLeap y) : Int) = 365 + (if y % 4 = 0 then 1 else 0) -
      (if y % 100 = 0 then 1 else 0) + if y % 400 = 0 then 1 else 0 := by
    by_cases h4 : y % 4 = 0 <;> by_cases h100 : y % 100 = 0 <;> by_cases h400 : y % 400 = 0 <;>
      simp [daysInYear, isLeap, h4, h100, h400] <;> omega
  unfold daysBeforeYear
  rw [hleap, ← hfour, ← hcentury, ← hcycle]
  omega

/-- A day lies in its year. -/
theorem mem_yearOfDay (n : Int) :
    daysBeforeYear (yearOfDay n) ≤ n ∧ n < daysBeforeYear (yearOfDay n + 1) := by
  rw [yearOfDay]
  split
  · unfold daysBeforeYear at *
    omega
  · split
    · unfold daysBeforeYear at *
      omega
    · unfold daysBeforeYear at *
      omega

theorem daysBeforeMonth_succ (leap : Bool) (h : 1 ≤ month) :
    daysBeforeMonth leap (month + 1) = daysBeforeMonth leap month + daysInMonth leap month := by
  obtain ⟨month, rfl⟩ := Nat.exists_eq_add_of_le' h
  rfl

theorem daysBeforeMonth_year (leap : Bool) : daysBeforeMonth leap 13 = daysInYear leap := by
  cases leap <;> rfl

/-- A day of the year lies in its month. -/
theorem mem_monthOfDay (hn : n < daysBeforeMonth leap (m + 2)) :
    1 ≤ monthOfDay leap n (m + 1) ∧ monthOfDay leap n (m + 1) ≤ m + 1 ∧
      daysBeforeMonth leap (monthOfDay leap n (m + 1)) ≤ n ∧
      n < daysBeforeMonth leap (monthOfDay leap n (m + 1) + 1) := by
  induction m with
  | zero =>
    have hfirst : monthOfDay leap n (0 + 1) = 1 := if_pos (Nat.zero_le n)
    rw [hfirst]
    exact ⟨Nat.le_refl 1, Nat.le_refl 1, Nat.zero_le n, hn⟩
  | succ m ih =>
    rw [monthOfDay]
    split
    · rename_i hbegun
      exact ⟨Nat.le_add_left 1 (m + 1), Nat.le_refl _, hbegun, hn⟩
    · rename_i hlater
      obtain ⟨hone, hle, hmem⟩ := ih (Nat.lt_of_not_le hlater)
      exact ⟨hone, Nat.le_succ_of_le hle, hmem⟩

theorem bounds_of_isValid {d : Date} (h : d.isValid = true) : d.month ≤ 12 ∧ d.day ≤ 31 := by
  simp only [Date.isValid, Bool.and_eq_true, decide_eq_true_eq] at h
  obtain ⟨⟨⟨-, hmonth⟩, -⟩, hday⟩ := h
  refine ⟨hmonth, Nat.le_trans hday ?_⟩
  unfold daysInMonth
  split
  · split <;> decide
  all_goals decide

theorem dayNumber_ofDayNumber (n : Int) :
    (Date.ofDayNumber n).isValid = true ∧ (Date.ofDayNumber n).dayNumber = n := by
  obtain ⟨hyear, hnext⟩ := mem_yearOfDay (n + epochDay)
  rw [daysBeforeYear_succ] at hnext
  rw [Date.ofDayNumber]
  generalize yearOfDay (n + epochDay) = year at hyear hnext ⊢
  generalize hrest : (n + epochDay - daysBeforeYear year).toNat = rest
  have hlt : rest < daysBeforeMonth (isLeap year) 13 := by
    rw [daysBeforeMonth_year]
    omega
  obtain ⟨hone, htwelve, hbegun, hover⟩ := mem_monthOfDay hlt
  generalize monthOfDay (isLeap year) rest 12 = month at hone htwelve hbegun hover ⊢
  rw [daysBeforeMonth_succ _ hone] at hover
  constructor
  · simp only [Date.isValid, Bool.and_eq_true, decide_eq_true_eq]
    omega
  · rw [Date.dayNumber]
    dsimp only
    omega

end SeriesPipeline.Calendar
