import DataRelay.Lib.UtcTime

/-! The months of the calendar, the time each one starts, and the days before a time. A time is in
the month whose start it is not before and whose successor's start it is before. -/

structure Month where
  year : ℕ
  month : ℕ
  year_bounds : 1 ≤ year ∧ year < 10000 := by decide
  month_bounds : 1 ≤ month ∧ month < 13 := by decide

namespace Month

/-- The place of a month in the order of all. -/
def index (m : Month) : ℕ := m.year * 13 + m.month

theorem index_injective : Function.Injective index := by
  rintro ⟨y, m, hy, hm⟩ ⟨y', m', hy', hm'⟩ h
  simp only [index] at h
  simp only [mk.injEq]
  omega

instance : DecidableEq Month := fun _ _ => decidable_of_iff _ index_injective.eq_iff

instance : LinearOrder Month := LinearOrder.lift' index index_injective

theorem le_iff_index {m m' : Month} : m ≤ m' ↔ m.index ≤ m'.index := Iff.rfl

theorem lt_iff_index {m m' : Month} : m < m' ↔ m.index < m'.index := by
  rw [lt_iff_not_ge, lt_iff_not_ge, le_iff_index]

theorem january_bounds : 1 ≤ 1 ∧ 1 < 13 := by decide

theorem december_bounds : 1 ≤ 12 ∧ 12 < 13 := by decide

theorem midnight_bounds : 0 < 24 ∧ 0 < 60 ∧ 0 < 60 ∧ 0 < 1000000 := by decide

/-- The month after, up to the last one there is. -/
def next (m : Month) : Option Month :=
  if h : m.month = 12 then
    if hy : m.year + 1 < 10000 then some ⟨m.year + 1, 1, ⟨by omega, hy⟩, january_bounds⟩ else none
  else some ⟨m.year, m.month + 1, m.year_bounds, by have := m.month_bounds; omega⟩

/-- No month lies between one and the next. -/
theorem next_le_iff {m m' n : Month} (h : m.next = some n) : n ≤ m' ↔ m < m' := by
  have hm := m.month_bounds
  have hm' := m'.month_bounds
  unfold next at h
  rw [le_iff_index, lt_iff_index, index, index, index]
  split_ifs at h with hlast hyear <;>
    · injection h with h
      subst h
      simp only
      omega

theorem lt_next {m n : Month} (h : m.next = some n) : m < n := (next_le_iff h).1 le_rfl

def first (m : Month) : UtcTime where
  year := m.year
  month := m.month
  day := 1
  hour := 0
  minute := 0
  second := 0
  year_bounds := m.year_bounds
  month_bounds := m.month_bounds
  day_bounds := ⟨le_rfl, by unfold daysInMonth; split_ifs <;> omega⟩
  time_bounds := midnight_bounds

end Month

namespace UtcTime

theorem le_iff_ordinal {t u : UtcTime} : t ≤ u ↔ t.ordinal ≤ u.ordinal := Iff.rfl

theorem lt_iff_ordinal {t u : UtcTime} : t < u ↔ t.ordinal < u.ordinal := by
  rw [lt_iff_not_ge, lt_iff_not_ge, le_iff_ordinal]

/-- The month a time is in. -/
def inMonth (t : UtcTime) : Month := ⟨t.year, t.month, t.year_bounds, t.month_bounds⟩

/-- Starts of months and months of times are two sides of one comparison. -/
theorem first_le_iff {m : Month} {t : UtcTime} : m.first ≤ t ↔ m ≤ t.inMonth := by
  rw [le_iff_ordinal, Month.le_iff_index]
  simp only [Month.first, ordinal, Month.index, inMonth]
  have hm := m.month_bounds
  have ht := t.month_bounds
  have hday := t.day_bounds
  have hlast := daysInMonth_le t.year t.month
  have htime := t.time_bounds
  constructor <;> intro h <;> omega

theorem lt_first_iff {m : Month} {t : UtcTime} : t < m.first ↔ t.inMonth < m := by
  rw [← not_le, ← not_le, first_le_iff]

theorem inMonth_mono {t u : UtcTime} (h : t ≤ u) : t.inMonth ≤ u.inMonth :=
  first_le_iff.1 ((first_le_iff.2 le_rfl).trans h)

/-- The same time of the day before, from the second day there is. -/
def prevDay (t : UtcTime) : Option UtcTime :=
  if hd : 1 < t.day then
    some { t with
      day := t.day - 1
      day_bounds := by have := t.day_bounds; omega }
  else if hm : 1 < t.month then
    some { t with
      month := t.month - 1
      day := daysInMonth t.year (t.month - 1)
      month_bounds := by have := t.month_bounds; omega
      day_bounds := ⟨by unfold daysInMonth; split_ifs <;> omega, le_rfl⟩ }
  else if hy : 1 < t.year then
    some { t with
      year := t.year - 1
      month := 12
      day := 31
      year_bounds := by have := t.year_bounds; omega
      month_bounds := Month.december_bounds
      day_bounds := by simp [daysInMonth] }
  else none

theorem prevDay_lt {t u : UtcTime} (h : t.prevDay = some u) : u < t := by
  have hlast := daysInMonth_le t.year (t.month - 1)
  have htime := t.time_bounds
  rw [lt_iff_ordinal]
  unfold prevDay at h
  split_ifs at h <;>
    · injection h with h
      subst h
      simp only [ordinal]
      omega

/-- As many days before. -/
def minusDays (t : UtcTime) : ℕ → Option UtcTime
  | 0 => some t
  | days + 1 => t.prevDay.bind fun u => u.minusDays days

theorem minusDays_le {t u : UtcTime} {days : ℕ} (h : t.minusDays days = some u) : u ≤ t := by
  induction days generalizing t with
  | zero =>
    injection h with h
    exact h.ge
  | succ days ih =>
    obtain ⟨v, hv, hu⟩ := Option.bind_eq_some_iff.1 h
    exact (ih hu).trans (prevDay_lt hv).le

theorem minusDays_lt {t u : UtcTime} {days : ℕ} (hdays : 0 < days)
    (h : t.minusDays days = some u) : u < t := by
  obtain ⟨days, rfl⟩ := Nat.exists_eq_succ_of_ne_zero hdays.ne'
  obtain ⟨v, hv, hu⟩ := Option.bind_eq_some_iff.1 h
  exact (minusDays_le hu).trans_lt (prevDay_lt hv)

end UtcTime
