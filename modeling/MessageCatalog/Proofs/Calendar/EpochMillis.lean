import Mathlib.Data.List.Basic
import MessageCatalog.Calendar.Moment
import MessageCatalog.Proofs.Calendar.Civil

/-!
Moments of counts of milliseconds. A count is read by way of nanoseconds, as a word of 128 bits that is wide
enough for every integer of 64 bits, and it is read whenever its year has at most four digits. Its fields are
those of a date and a clock in UTC, they give the count back, and they are in the order of the counts.
-/

namespace MessageCatalog.Moment

def nanosPerDay : Int := 86400000000000

def ofEpochNanos? (nanos : Int) : Option Moment :=
  let date := CivilDate.ofDays (nanos / nanosPerDay)
  let inDay := (nanos % nanosPerDay).toNat
  if -9999 ≤ date.year ∧ date.year ≤ 9999 then
    some
      { date := date
        hour := inDay / 3600000000000
        minute := inDay / 60000000000 % 60
        second := inDay / 1000000000 % 60
        nanosecond := inDay % 1000000000
        offset := 0 }
  else none

def nanosOfMillis (m : Int64) : BitVec 128 :=
  m.toBitVec.signExtend 128 * 1000000#128

theorem toInt_signExtend (m : Int64) : (m.toBitVec.signExtend 128).toInt = m.toInt :=
  BitVec.toInt_signExtend_of_le (by decide)

theorem smulOverflow_millis (m : Int64) :
    BitVec.smulOverflow (m.toBitVec.signExtend 128) 1000000#128 = false := by
  have hle := m.toInt_lt
  have hge := m.le_toInt
  have hfactor : (1000000#128).toInt = 1000000 := by decide
  rw [BitVec.smulOverflow, toInt_signExtend, hfactor]
  simp only [Bool.or_eq_false_iff, decide_eq_false_iff_not]
  omega

theorem toInt_nanosOfMillis (m : Int64) : (nanosOfMillis m).toInt = m.toInt * 1000000 := by
  have hfactor : (1000000#128).toInt = 1000000 := by decide
  have hexact := BitVec.toInt_mul_of_not_smulOverflow (Bool.eq_false_iff.mp (smulOverflow_millis m))
  rw [nanosOfMillis, hexact, toInt_signExtend, hfactor]

theorem year_ofDays_bounds (ms : Int) :
    -9999 ≤ (CivilDate.ofDays (ms / millisPerDay)).year ∧
        (CivilDate.ofDays (ms / millisPerDay)).year ≤ 9999 ↔
      firstMilli ≤ ms ∧ ms ≤ lastMilli := by
  have hlast : (CivilDate.ofDays (ms / millisPerDay)).year ≤ 9999 ↔ ms ≤ lastMilli := by
    rw [CivilDate.year_ofDays_le_iff]
    have hdays : CivilDate.daysBeforeYear (9999 + 1) = 3652059 := by decide
    rw [hdays, CivilDate.firstDay, millisPerDay, lastMilli]
    omega
  have hfirst : (CivilDate.ofDays (ms / millisPerDay)).year ≤ -10000 ↔ ms < firstMilli := by
    rw [CivilDate.year_ofDays_le_iff]
    have hdays : CivilDate.daysBeforeYear (-10000 + 1) = -3652425 := by decide
    rw [hdays, CivilDate.firstDay, millisPerDay, firstMilli]
    omega
  omega

theorem ofEpochMillis?_eq (ms : Int) : ofEpochMillis? ms = ofEpochNanos? (ms * 1000000) := by
  have hday : ms * 1000000 / nanosPerDay = ms / millisPerDay := by
    rw [nanosPerDay, millisPerDay]
    omega
  have hinDay : (ms * 1000000 % nanosPerDay).toNat = (ms % millisPerDay).toNat * 1000000 := by
    rw [nanosPerDay, millisPerDay]
    omega
  rw [ofEpochMillis?, ofEpochNanos?, hday, hinDay]
  simp only [year_ofDays_bounds]
  split
  case isTrue =>
    simp only [Option.some.injEq, mk.injEq, true_and, and_true]
    omega
  case isFalse => rfl

/-- The date and the clock of a count of milliseconds, in UTC. -/
structure IsReading (t : Moment) (ms : Int) : Prop where
  date : t.date.IsValid
  hour : t.hour < 24
  minute : t.minute < 60
  second : t.second < 60
  milli : ∃ k < 1000, t.nanosecond = k * 1000000
  utc : t.offset = 0
  count : ms = (((t.date.toDays * 24 + t.hour) * 60 + t.minute) * 60 + t.second) * 1000 +
    t.nanosecond / 1000000

theorem isReading_of_ofEpochMillis? {ms : Int} {t : Moment} (h : ofEpochMillis? ms = some t) :
    t.IsReading ms := by
  rw [ofEpochMillis?] at h
  split at h
  case isTrue =>
    cases h
    have hday : (ms % millisPerDay).toNat < 86400000 := by
      rw [millisPerDay]
      omega
    refine ⟨CivilDate.isValid_ofDays _, ?_, ?_, ?_, ⟨_, ?_, rfl⟩, rfl, ?_⟩
    · dsimp only
      omega
    · exact Nat.mod_lt _ (by decide)
    · exact Nat.mod_lt _ (by decide)
    · exact Nat.mod_lt _ (by decide)
    · dsimp only
      rw [CivilDate.toDays_ofDays]
      rw [millisPerDay] at *
      omega
  case isFalse => cases h

theorem date_of_ofEpochMillis? {ms : Int} {t : Moment} (h : ofEpochMillis? ms = some t) :
    t.date = CivilDate.ofDays (ms / millisPerDay) := by
  rw [ofEpochMillis?] at h
  split at h
  case isTrue =>
    cases h
    rfl
  case isFalse => cases h

theorem year_le_of_ofEpochMillis? {ms : Int} {t : Moment} (h : ofEpochMillis? ms = some t) :
    t.date.year ≤ 9999 := by
  have hdate := date_of_ofEpochMillis? h
  rw [ofEpochMillis?, Option.ite_none_right_eq_some] at h
  rw [hdate]
  exact ((year_ofDays_bounds ms).mpr h.1).2

def fields (t : Moment) : List Nat :=
  [t.date.year.toNat, t.date.month, t.date.day, t.hour, t.minute, t.second, t.nanosecond / 1000000]

def millisOfFields? : List Nat → Option Int
  | [year, month, day, hour, minute, second, milli] =>
    some ((((CivilDate.toDays ⟨year, month, day⟩ * 24 + hour) * 60 + minute) * 60 + second) * 1000 + milli)
  | _ => none

theorem clock_lt_iff {hour minute second milli hour' minute' second' milli' : Nat} (hm : minute < 60)
    (hs : second < 60) (hk : milli < 1000) (hm' : minute' < 60) (hs' : second' < 60) (hk' : milli' < 1000) :
    [hour, minute, second, milli] < [hour', minute', second', milli'] ↔
      ((hour * 60 + minute) * 60 + second) * 1000 + milli <
        ((hour' * 60 + minute') * 60 + second') * 1000 + milli' := by
  simp only [List.cons_lt_cons_iff, List.lt_irrefl, and_false, or_false]
  omega

namespace IsReading

variable {s t : Moment} {m n : Int}

theorem millisOfFields? (h : t.IsReading m) (hyear : 0 ≤ t.date.year) :
    millisOfFields? t.fields = some m := by
  have hdate : (⟨t.date.year.toNat, t.date.month, t.date.day⟩ : CivilDate) = t.date := by
    rw [Int.toNat_of_nonneg hyear]
  rw [fields, Moment.millisOfFields?, hdate, h.count]
  rfl

theorem fields_lt_iff (hs : s.IsReading m) (ht : t.IsReading n) (hyears : 0 ≤ s.date.year)
    (hyeart : 0 ≤ t.date.year) : s.fields < t.fields ↔ m < n := by
  obtain ⟨hdate, hhour, hminute, hsecond, ⟨k, hk, hmilli⟩, -, hcount⟩ := hs
  obtain ⟨hdate', hhour', hminute', hsecond', ⟨k', hk', hmilli'⟩, -, hcount'⟩ := ht
  have hdays : s.fields < t.fields ↔ s.date.Precedes t.date ∨ s.date = t.date ∧
      [s.hour, s.minute, s.second, k] < [t.hour, t.minute, t.second, k'] := by
    have hk₁ : s.nanosecond / 1000000 = k := by omega
    have hk₂ : t.nanosecond / 1000000 = k' := by omega
    have hyear : s.date.year.toNat < t.date.year.toNat ↔ s.date.year < t.date.year := by omega
    have hyear' : s.date.year.toNat = t.date.year.toNat ↔ s.date.year = t.date.year := by omega
    have hsame : s.date = t.date ↔
        s.date.year = t.date.year ∧ s.date.month = t.date.month ∧ s.date.day = t.date.day := by
      rw [CivilDate.mk.injEq]
    rw [fields, fields, hk₁, hk₂, List.cons_lt_cons_iff, List.cons_lt_cons_iff, List.cons_lt_cons_iff,
      hyear, hyear', CivilDate.Precedes, hsame]
    simp only [and_or_left, or_assoc, and_assoc]
  have hsame : s.date = t.date ↔ s.date.toDays = t.date.toDays :=
    ⟨congrArg _, CivilDate.eq_of_toDays_eq hdate hdate'⟩
  rw [hdays, ← CivilDate.toDays_lt_iff hdate hdate', hsame,
    clock_lt_iff hminute hsecond hk hminute' hsecond' hk']
  omega

theorem unique (hs : s.IsReading m) (ht : t.IsReading m) : s = t := by
  obtain ⟨hdate, hhour, hminute, hsecond, ⟨k, hk, hmilli⟩, hutc, hcount⟩ := hs
  obtain ⟨hdate', hhour', hminute', hsecond', ⟨k', hk', hmilli'⟩, hutc', hcount'⟩ := ht
  have hdays : s.date.toDays = t.date.toDays := by omega
  have hsame := CivilDate.eq_of_toDays_eq hdate hdate' hdays
  obtain ⟨date, hour, minute, second, nanosecond, offset⟩ := s
  obtain ⟨date', hour', minute', second', nanosecond', offset'⟩ := t
  dsimp only at *
  rw [mk.injEq]
  exact ⟨hsame, by omega, by omega, by omega, by omega, by omega⟩

end IsReading

end MessageCatalog.Moment
