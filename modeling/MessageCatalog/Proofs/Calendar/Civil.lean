import Mathlib.Order.Interval.Finset.Nat
import Mathlib.Tactic.IntervalCases
import MessageCatalog.Calendar.Moment

/-!
The calendar. Each day has exactly one valid date, dates are in the order of their days, and the day after
a date has the next date. The day count of a year grows by the length of the year before, so a year is known
from the two counts that its days lie between.
-/

namespace MessageCatalog.CivilDate

def yearLength (year : Int) : Nat :=
  if isLeap year then 366 else 365

def monthLength (year : Int) (month : Nat) : Nat :=
  (monthLengths (isLeap year))[month - 1]?.getD 0

def daysBeforeMonth (year : Int) (month : Nat) : Nat :=
  ((monthLengths (isLeap year)).take (month - 1)).foldr (· + ·) 0

structure IsValid (d : CivilDate) : Prop where
  month_pos : 1 ≤ d.month
  month_le : d.month ≤ 12
  day_pos : 1 ≤ d.day
  day_le : d.day ≤ monthLength d.year d.month

def Precedes (a b : CivilDate) : Prop :=
  a.year < b.year ∨ a.year = b.year ∧ (a.month < b.month ∨ a.month = b.month ∧ a.day < b.day)

def next (d : CivilDate) : CivilDate :=
  if d.day < monthLength d.year d.month then ⟨d.year, d.month, d.day + 1⟩
  else if d.month < 12 then ⟨d.year, d.month + 1, 1⟩
  else ⟨d.year + 1, 1, 1⟩

section Years

theorem isLeap_iff {year : Int} :
    isLeap year = true ↔ year % 4 = 0 ∧ (year % 100 ≠ 0 ∨ year % 400 = 0) := by
  simp [isLeap]

theorem daysBeforeYear_eq (year : Int) : daysBeforeYear year =
    365 * (year - 1) + (year - 1) / 4 - (year - 1) / 100 + (year - 1) / 400 :=
  rfl

theorem daysBeforeYear_succ (year : Int) :
    daysBeforeYear (year + 1) = daysBeforeYear year + yearLength year := by
  rw [daysBeforeYear_eq, daysBeforeYear_eq, yearLength]
  split
  case isTrue h =>
    rw [isLeap_iff] at h
    omega
  case isFalse h =>
    rw [isLeap_iff] at h
    omega

theorem daysBeforeYear_le {a b : Int} (h : a ≤ b) : daysBeforeYear a ≤ daysBeforeYear b := by
  rw [daysBeforeYear_eq, daysBeforeYear_eq]
  omega

theorem daysBeforeYear_parts (cycles : Int) {centuries groups years : Nat} (hc : centuries < 4)
    (hg : groups < 25) (hy : years < 4) :
    daysBeforeYear (400 * cycles + 100 * centuries + 4 * groups + years + 1) =
      146097 * cycles + 36524 * centuries + 1461 * groups + 365 * years := by
  rw [daysBeforeYear_eq]
  have h4 : (400 * cycles + 100 * centuries + 4 * groups + years + 1 - 1) / 4 =
      100 * cycles + 25 * centuries + groups := by omega
  have h100 : (400 * cycles + 100 * centuries + 4 * groups + years + 1 - 1) / 100 =
      4 * cycles + centuries := by omega
  have h400 : (400 * cycles + 100 * centuries + 4 * groups + years + 1 - 1) / 400 = cycles := by omega
  rw [h4, h100, h400]
  omega

theorem yearOfDay_spec (n : Int) :
    n = daysBeforeYear (yearOfDay n).1 + (yearOfDay n).2 ∧
      (yearOfDay n).2 < yearLength (yearOfDay n).1 := by
  obtain ⟨inCycle, hcycle⟩ : ∃ inCycle, inCycle = (n % 146097).toNat := ⟨_, rfl⟩
  obtain ⟨centuries, hcenturies⟩ : ∃ centuries, centuries = min (inCycle / 36524) 3 := ⟨_, rfl⟩
  obtain ⟨inCentury, hcentury⟩ : ∃ inCentury, inCentury = inCycle - 36524 * centuries := ⟨_, rfl⟩
  obtain ⟨groups, hgroups⟩ : ∃ groups, groups = inCentury / 1461 := ⟨_, rfl⟩
  obtain ⟨inGroup, hgroup⟩ : ∃ inGroup, inGroup = inCentury - 1461 * groups := ⟨_, rfl⟩
  obtain ⟨years, hyears⟩ : ∃ years, years = min (inGroup / 365) 3 := ⟨_, rfl⟩
  have hresult : yearOfDay n =
      (400 * (n / 146097) + 100 * centuries + 4 * groups + years + 1, inGroup - 365 * years) := by
    rw [hyears, hgroup, hgroups, hcentury, hcenturies, hcycle]
    rfl
  have hinCycle : inCycle < 146097 := by omega
  have hc : centuries < 4 := by omega
  have hinCentury : inCentury < 36524 ∨ centuries = 3 ∧ inCentury = 36524 := by omega
  have hg : groups < 25 := by omega
  have hinGroup : inGroup < 1461 := by omega
  have hy : years < 4 := by omega
  rw [hresult, daysBeforeYear_parts _ hc hg hy, yearLength]
  constructor
  · omega
  · split
    case isTrue => omega
    case isFalse hleap =>
      -- only the last year of a group has one day more, and it is a leap year
      rw [isLeap_iff] at hleap
      omega

end Years

section Months

theorem foldr_add (ns : List Nat) (n : Nat) : ns.foldr (· + ·) n = ns.foldr (· + ·) 0 + n := by
  induction ns with
  | nil => simp
  | cons m ns ih => rw [List.foldr_cons, ih, List.foldr_cons, Nat.add_assoc]

theorem dayOfYear_eq (d : CivilDate) : d.dayOfYear = daysBeforeMonth d.year d.month + d.day :=
  foldr_add _ _

theorem length_monthLengths (leap : Bool) : (monthLengths leap).length = 12 := by
  rfl

theorem sum_monthLengths (year : Int) : (monthLengths (isLeap year)).foldr (· + ·) 0 = yearLength year := by
  rw [yearLength]
  cases isLeap year <;> rfl

theorem daysBeforeMonth_succ (year : Int) {month : Nat} (hpos : 1 ≤ month) (hle : month ≤ 12) :
    daysBeforeMonth year (month + 1) = daysBeforeMonth year month + monthLength year month := by
  obtain ⟨k, rfl⟩ : ∃ k, month = k + 1 := ⟨month - 1, by omega⟩
  have hk : k < (monthLengths (isLeap year)).length := by
    rw [length_monthLengths]
    omega
  simp only [daysBeforeMonth, monthLength, Nat.add_sub_cancel, List.take_add_one, List.foldr_append,
    List.getElem?_eq_getElem hk, Option.toList_some, List.foldr_cons, List.foldr_nil, Option.getD_some]
  exact foldr_add _ _

theorem daysBeforeMonth_le (year : Int) {a b : Nat} (hpos : 1 ≤ a) (h : a ≤ b) (hle : b ≤ 13) :
    daysBeforeMonth year a ≤ daysBeforeMonth year b := by
  induction b, h using Nat.le_induction with
  | base => exact Nat.le_refl _
  | succ b hab ih =>
    rw [daysBeforeMonth_succ year (by omega) (by omega)]
    have := ih (by omega)
    omega

theorem daysBeforeMonth_last (year : Int) : daysBeforeMonth year 13 = yearLength year := by
  rw [← sum_monthLengths, daysBeforeMonth, List.take_of_length_le]
  rw [length_monthLengths]

theorem monthOfDay_spec {lengths : List Nat} {before : Nat} (h : before < lengths.foldr (· + ·) 0)
    (month : Nat) : ∃ i < lengths.length, (monthOfDay lengths month before).1 = month + i ∧
      before + 1 = (lengths.take i).foldr (· + ·) 0 + (monthOfDay lengths month before).2 ∧
      1 ≤ (monthOfDay lengths month before).2 ∧
      (monthOfDay lengths month before).2 ≤ lengths[i]?.getD 0 := by
  induction lengths generalizing month before with
  | nil => cases h
  | cons length rest ih =>
    rw [monthOfDay]
    split
    case isTrue hin =>
      refine ⟨0, Nat.succ_pos _, rfl, ?_, Nat.succ_pos _, hin⟩
      rw [List.take_zero, List.foldr_nil, Nat.zero_add]
    case isFalse hout =>
      have hrest : before - length < rest.foldr (· + ·) 0 := by
        rw [List.foldr_cons] at h
        omega
      obtain ⟨i, hi, hmonth, hdays, hpos, hle⟩ := ih hrest (month + 1)
      refine ⟨i + 1, Nat.succ_lt_succ hi, ?_, ?_, hpos, hle⟩
      · rw [hmonth]
        omega
      · rw [List.take_succ_cons, List.foldr_cons]
        omega

end Months

theorem ofDays_spec (n : Int) : (ofDays n).IsValid ∧
    (ofDays n).year = (yearOfDay (n + firstDay)).1 ∧
    (ofDays n).dayOfYear = (yearOfDay (n + firstDay)).2 + 1 := by
  have hyear := (yearOfDay_spec (n + firstDay)).2
  rw [← sum_monthLengths] at hyear
  obtain ⟨i, hi, hmonth, hdays, hpos, hle⟩ := monthOfDay_spec hyear 1
  rw [length_monthLengths] at hi
  have hindex : (ofDays n).month - 1 = i := by
    have : (ofDays n).month = 1 + i := hmonth
    omega
  refine ⟨⟨?_, ?_, hpos, ?_⟩, rfl, ?_⟩
  · have : (ofDays n).month = 1 + i := hmonth
    omega
  · have : (ofDays n).month = 1 + i := hmonth
    omega
  · rw [monthLength, hindex]
    exact hle
  · rw [dayOfYear_eq, daysBeforeMonth, hindex]
    exact hdays.symm

theorem isValid_ofDays (n : Int) : (ofDays n).IsValid :=
  (ofDays_spec n).1

theorem toDays_ofDays (n : Int) : (ofDays n).toDays = n := by
  obtain ⟨-, hyear, hday⟩ := ofDays_spec n
  have hn := (yearOfDay_spec (n + firstDay)).1
  rw [toDays, hyear, hday]
  omega

namespace IsValid

variable {a b d : CivilDate}

theorem dayOfYear_pos (h : d.IsValid) : 1 ≤ d.dayOfYear := by
  have := h.day_pos
  rw [dayOfYear_eq]
  omega

theorem dayOfYear_le (h : d.IsValid) : d.dayOfYear ≤ daysBeforeMonth d.year (d.month + 1) := by
  have := h.day_le
  rw [dayOfYear_eq, daysBeforeMonth_succ _ h.month_pos h.month_le]
  omega

theorem dayOfYear_le_yearLength (h : d.IsValid) : d.dayOfYear ≤ yearLength d.year := by
  apply Nat.le_trans h.dayOfYear_le
  rw [← daysBeforeMonth_last]
  have := h.month_le
  exact daysBeforeMonth_le _ (by omega) (by omega) (Nat.le_refl _)

theorem toDays_lt (ha : a.IsValid) (hb : b.IsValid) (h : a.Precedes b) : a.toDays < b.toDays := by
  rcases h with hyear | ⟨hyear, hmonth | ⟨hmonth, hday⟩⟩
  · have hend := ha.dayOfYear_le_yearLength
    have hstart := hb.dayOfYear_pos
    have hyears : daysBeforeYear (a.year + 1) ≤ daysBeforeYear b.year := daysBeforeYear_le hyear
    rw [daysBeforeYear_succ] at hyears
    rw [toDays, toDays]
    omega
  · have hend := ha.dayOfYear_le
    have hstart := hb.day_pos
    have hlast := hb.month_le
    have hmonths : daysBeforeMonth a.year (a.month + 1) ≤ daysBeforeMonth a.year b.month :=
      daysBeforeMonth_le _ (by omega) hmonth (by omega)
    rw [toDays, toDays, dayOfYear_eq b, ← hyear]
    omega
  · rw [toDays, toDays, dayOfYear_eq, dayOfYear_eq, hyear, hmonth]
    omega

end IsValid

theorem precedes_or_eq_or_precedes (a b : CivilDate) : a.Precedes b ∨ a = b ∨ b.Precedes a := by
  obtain ⟨year, month, day⟩ := a
  obtain ⟨year', month', day'⟩ := b
  simp only [Precedes, mk.injEq]
  omega

theorem toDays_lt_iff {a b : CivilDate} (ha : a.IsValid) (hb : b.IsValid) :
    a.toDays < b.toDays ↔ a.Precedes b := by
  constructor
  · intro h
    rcases precedes_or_eq_or_precedes a b with hab | rfl | hba
    · exact hab
    · omega
    · have := hb.toDays_lt ha hba
      omega
  · exact ha.toDays_lt hb

theorem eq_of_toDays_eq {a b : CivilDate} (ha : a.IsValid) (hb : b.IsValid) (h : a.toDays = b.toDays) :
    a = b := by
  rcases precedes_or_eq_or_precedes a b with hab | rfl | hba
  · have := ha.toDays_lt hb hab
    omega
  · rfl
  · have := hb.toDays_lt ha hba
    omega

theorem year_ofDays_le_iff {n year : Int} :
    (ofDays n).year ≤ year ↔ n + firstDay < daysBeforeYear (year + 1) := by
  obtain ⟨-, hyear, -⟩ := ofDays_spec n
  obtain ⟨hn, hlt⟩ := yearOfDay_spec (n + firstDay)
  rw [← hyear] at hn hlt
  constructor
  · intro h
    have hyears : daysBeforeYear ((ofDays n).year + 1) ≤ daysBeforeYear (year + 1) :=
      daysBeforeYear_le (by omega)
    rw [daysBeforeYear_succ] at hyears
    omega
  · intro h
    by_contra hlater
    have hyears : daysBeforeYear (year + 1) ≤ daysBeforeYear (ofDays n).year :=
      daysBeforeYear_le (by omega)
    omega

theorem monthLength_pos (year : Int) {month : Nat} (hpos : 1 ≤ month) (hle : month ≤ 12) :
    1 ≤ monthLength year month := by
  unfold monthLength
  cases isLeap year <;> interval_cases month <;> decide

theorem monthLength_le (year : Int) (month : Nat) : monthLength year month ≤ 31 := by
  have hall : ∀ leap, ∀ n ∈ monthLengths leap, n ≤ 31 := by decide
  unfold monthLength
  cases h : (monthLengths (isLeap year))[month - 1]? with
  | none => exact Nat.zero_le _
  | some n => exact hall _ n (List.mem_of_getElem? h)

theorem isValid_next {d : CivilDate} (h : d.IsValid) : d.next.IsValid := by
  obtain ⟨hpos, hle, hday, hlast⟩ := h
  unfold next
  split
  case isTrue hin => exact ⟨hpos, hle, Nat.succ_pos _, hin⟩
  case isFalse =>
    split
    case isTrue hmonth =>
      exact ⟨Nat.succ_pos _, hmonth, Nat.le_refl _, monthLength_pos _ (Nat.succ_pos _) hmonth⟩
    case isFalse =>
      have hone : 1 ≤ monthLength (d.year + 1) 1 := monthLength_pos _ (by decide) (by decide)
      exact ⟨Nat.le_refl 1, Nat.succ_pos 11, Nat.le_refl 1, hone⟩

theorem toDays_next {d : CivilDate} (h : d.IsValid) : d.next.toDays = d.toDays + 1 := by
  obtain ⟨hpos, hle, hday, hlast⟩ := h
  have hmonth := daysBeforeMonth_succ d.year hpos hle
  unfold next
  split
  case isTrue =>
    rw [toDays, toDays, dayOfYear_eq, dayOfYear_eq]
    dsimp only
    omega
  case isFalse hin =>
    split
    case isTrue =>
      rw [toDays, toDays, dayOfYear_eq, dayOfYear_eq]
      dsimp only
      omega
    case isFalse =>
      -- the last day of the year, so the new day is the first one of the next year
      have htwelve : d.month = 12 := by omega
      have hnext : daysBeforeMonth (d.year + 1) 1 = 0 := rfl
      rw [htwelve] at hmonth hlast hin
      rw [daysBeforeMonth_last] at hmonth
      rw [toDays, toDays, dayOfYear_eq, dayOfYear_eq, daysBeforeYear_succ, htwelve]
      dsimp only
      omega

theorem ofDays_succ (n : Int) : ofDays (n + 1) = (ofDays n).next := by
  have hvalid := isValid_ofDays n
  apply eq_of_toDays_eq (isValid_ofDays _) (isValid_next hvalid)
  rw [toDays_next hvalid, toDays_ofDays, toDays_ofDays]

theorem ofDays_zero : ofDays 0 = ⟨1970, 1, 1⟩ := by
  decide +kernel

end MessageCatalog.CivilDate
