import DependentWatch.Timestamp.Printer
/-! Two points in time have the same text only if they are the same second. -/
namespace DependentWatch.Timestamp

/-! The calendar: a day lies in its year, its month and its place there, and they tell the day. -/

theorem daysBeforeYear_yearOf (day : Int) :
    daysBeforeYear (yearOf day) ≤ day ∧ day < daysBeforeYear (yearOf day + 1) := by
  simp only [yearOf]
  split
  · rw [Int.sub_add_cancel]
    simp only [daysBeforeYear] at *
    omega
  · split
    · simp only [daysBeforeYear] at *
      omega
    · omega

theorem daysInMonth_le (y : Int) (m : Nat) : daysInMonth y m ≤ 31 := by
  unfold daysInMonth
  repeat' split
  all_goals omega

theorem daysBeforeMonth_succ (y : Int) {m : Nat} (h : 1 ≤ m) :
    daysBeforeMonth y (m + 1) = daysBeforeMonth y m + daysInMonth y m := by
  obtain ⟨n, rfl⟩ := Nat.exists_eq_add_of_le' h
  simp [daysBeforeMonth, List.range_succ]

theorem daysBeforeMonth_thirteen (y : Int) :
    daysBeforeMonth y 13 = if isLeapYear y then 366 else 365 := by
  cases h : isLeapYear y <;> simp [daysBeforeMonth, daysInMonth, List.range_succ, h]

theorem daysBeforeYear_succ (y : Int) :
    daysBeforeYear (y + 1) = daysBeforeYear y + daysBeforeMonth y 13 := by
  rw [daysBeforeMonth_thirteen]
  simp only [daysBeforeYear, isLeapYear, Bool.or_eq_true, Bool.and_eq_true, decide_eq_true_eq]
  split <;> omega

theorem monthAndDay_spec {y : Int} {left m days : Nat} (hm : 1 ≤ m)
    (h : daysBeforeMonth y m + days < daysBeforeMonth y (m + left + 1)) :
    daysBeforeMonth y (monthAndDay y left m days).1 + (monthAndDay y left m days).2 =
      daysBeforeMonth y m + days + 1 ∧
    (monthAndDay y left m days).1 ≤ m + left ∧ (monthAndDay y left m days).2 ≤ 31 := by
  induction left generalizing m days with
  | zero =>
    have hsucc := daysBeforeMonth_succ y hm
    have hle := daysInMonth_le y m
    simp only [monthAndDay, Nat.add_zero] at h ⊢
    omega
  | succ left ih =>
    have hsucc := daysBeforeMonth_succ y hm
    have hle := daysInMonth_le y m
    simp only [monthAndDay]
    split
    · dsimp only
      omega
    · have hroom : daysBeforeMonth y (m + 1) + (days - daysInMonth y m) <
          daysBeforeMonth y (m + 1 + left + 1) := by
        rw [show m + 1 + left + 1 = m + (left + 1) + 1 by omega]
        omega
      have hrest := ih (Nat.le_add_left 1 m) hroom
      omega

/-- The date of a day leads back to it. -/
theorem dayNumber_dateOf (day : Int) :
    dayNumber (dateOf day).1 (dateOf day).2.1 (dateOf day).2.2 = day - daysBeforeYear 1970 ∧
    (dateOf day).2.1 ≤ 12 ∧ (dateOf day).2.2 ≤ 31 := by
  obtain ⟨hfirst, hlast⟩ := daysBeforeYear_yearOf day
  rw [daysBeforeYear_succ] at hlast
  have hzero : daysBeforeMonth (yearOf day) 1 = 0 := rfl
  have hroom : daysBeforeMonth (yearOf day) 1 + (day - daysBeforeYear (yearOf day)).toNat <
      daysBeforeMonth (yearOf day) (1 + 11 + 1) := by
    show _ < daysBeforeMonth (yearOf day) 13
    omega
  obtain ⟨hsum, hmonth, hday⟩ := monthAndDay_spec (Nat.le_refl 1) hroom
  refine ⟨?_, hmonth, hday⟩
  simp only [dayNumber, dateOf]
  omega

/-! The digits of the text tell the numbers. -/

theorem twoDigits_inj {m n : Nat} (hm : m < 100) (hn : n < 100) (h : twoDigits m = twoDigits n) :
    m = n := by
  simp only [twoDigits, List.cons.injEq, and_true] at h
  have htens := congrArg Char.toNat h.1
  have hones := congrArg Char.toNat h.2
  rw [Nat.toNat_digitChar_of_lt_ten (by omega), Nat.toNat_digitChar_of_lt_ten (by omega)]
    at htens hones
  omega

theorem fourDigits_inj {m n : Nat} (h : fourDigits m = fourDigits n) : m = n := by
  have hvalue (k : Nat) : Nat.ofDigitChars 10 (fourDigits k) 0 = k := by
    rw [fourDigits, Nat.ofDigitChars_append, Nat.ofDigitChars_replicate_zero, Nat.mul_zero,
      Nat.ofDigitChars_ten_toDigits]
  rw [← hvalue m, h, hvalue]

theorem isDigit_of_mem_fourDigits {n : Nat} {c : Char} (h : c ∈ fourDigits n) : c.isDigit = true := by
  obtain h | h := List.mem_append.1 h
  · rw [List.eq_of_mem_replicate h]
    rfl
  · exact Nat.isDigit_of_mem_toDigits (by decide) (by decide) h

/-- A text that begins with a sign is no row of digits. -/
theorem cons_ne_fourDigits {c : Char} (hc : c.isDigit = false) (cs : List Char) (n : Nat) :
    c :: cs ≠ fourDigits n := by
  intro h
  have hd : c.isDigit = true := isDigit_of_mem_fourDigits (h ▸ List.mem_cons_self)
  rw [hc] at hd
  exact Bool.noConfusion hd

theorem yearText_inj {y z : Int} (h : yearText y = yearText z) : y = z := by
  have hminus : Char.isDigit '-' = false := by decide
  have hplus : Char.isDigit '+' = false := by decide
  unfold yearText at h
  split at h
  · split at h
    · have := fourDigits_inj (List.cons.inj h).2
      omega
    · split at h
      · simp at h
      · exact absurd h (cons_ne_fourDigits hminus _ _)
  · split at h
    · split at h
      · simp at h
      · split at h
        · have := fourDigits_inj (List.cons.inj h).2
          omega
        · exact absurd h (cons_ne_fourDigits hplus _ _)
    · split at h
      · exact absurd h.symm (cons_ne_fourDigits hminus _ _)
      · split at h
        · exact absurd h.symm (cons_ne_fourDigits hplus _ _)
        · have := fourDigits_inj h
          omega

/-- A leap second is the last of its minute. -/
def Placed (t : Timestamp) : Prop := t.leap = true → t.seconds % 60 = 59

theorem text_inj {t u : Timestamp} (ht : t.Placed) (hu : u.Placed) (h : t.text = u.text) : t = u := by
  obtain ⟨s, leap⟩ := t
  obtain ⟨r, leap'⟩ := u
  simp only [text, String.ofList_inj] at h
  obtain ⟨h, -⟩ := List.append_inj' h rfl
  obtain ⟨h, hsecond⟩ := List.append_inj' h rfl
  obtain ⟨h, hminute⟩ := List.append_inj' h rfl
  obtain ⟨h, hhour⟩ := List.append_inj' h rfl
  obtain ⟨h, hday⟩ := List.append_inj' h rfl
  obtain ⟨hyear, hmonth⟩ := List.append_inj' h rfl
  obtain ⟨hs, hsmonth, hsday⟩ := dayNumber_dateOf (s / 86400 + daysBeforeYear 1970)
  obtain ⟨hr, hrmonth, hrday⟩ := dayNumber_dateOf (r / 86400 + daysBeforeYear 1970)
  replace hyear := yearText_inj hyear
  replace hmonth := twoDigits_inj (by omega) (by omega) (List.cons.inj hmonth).2
  replace hday := twoDigits_inj (by omega) (by omega) (List.cons.inj hday).2
  replace hhour := twoDigits_inj (by omega) (by omega) (List.cons.inj hhour).2
  replace hminute := twoDigits_inj (by omega) (by omega) (List.cons.inj hminute).2
  replace hsecond := twoDigits_inj (by split <;> omega) (by split <;> omega) (List.cons.inj hsecond).2
  have hdays : s / 86400 = r / 86400 := by
    rw [hyear, hmonth, hday, hr] at hs
    omega
  simp only [Placed] at ht hu
  -- The sixtieth second of a minute is the leap one.
  have hleap : leap = leap' := by
    cases leap <;> cases leap' <;> simp_all <;> omega
  subst hleap
  have hsec : s = r := by omega
  rw [hsec]

end DependentWatch.Timestamp
