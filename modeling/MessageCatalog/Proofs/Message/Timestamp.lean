import MessageCatalog.Proofs.Calendar.EpochMillis
import MessageCatalog.Proofs.Message.Rendering
import MessageCatalog.Proofs.Text.FixedWidth

namespace MessageCatalog

open Text (Run Slot readSlots writeSlots)

namespace Timestamp

def source : String :=
  "\x7b0,date,yyyy-MM-dd HH:mm:ss.SSS\x7d"

def runs : List (Run Field) :=
  [.item ⟨'y', 4⟩, .text "-", .item ⟨'M', 2⟩, .text "-", .item ⟨'d', 2⟩, .text " ", .item ⟨'H', 2⟩,
    .text ":", .item ⟨'m', 2⟩, .text ":", .item ⟨'s', 2⟩, .text ".", .item ⟨'S', 3⟩]

def pattern (l : Locale) : MessagePattern :=
  ⟨source, l, [.item ⟨0, .date (.pattern ⟨"yyyy-MM-dd HH:mm:ss.SSS", runs⟩)⟩]⟩

def slots : List Slot :=
  [⟨4, ['-']⟩, ⟨2, ['-']⟩, ⟨2, [' ']⟩, ⟨2, [':']⟩, ⟨2, [':']⟩, ⟨2, ['.']⟩, ⟨3, []⟩]

def read? (text : String) : Option Int :=
  (readSlots slots text.toList).bind Moment.millisOfFields?

theorem compile_source (l : Locale) : MessagePattern.compile source l = .ok (pattern l) := by
  have hsegments : MessagePattern.segmentsOf source.toList = .ok (pattern l).segments := rfl
  rw [MessagePattern.compile, hsegments]
  rfl

variable {l : Locale} {t : Moment} {m : Int}

theorem numerals_english (hlanguage : l.language.code = "en") (hregion : l.regionCode = some "US") :
    Numerals.ofLocale l = .root := by
  have htext : l.text = "en-US" := by
    rw [Locale.regionCode, Option.map_eq_some_iff] at hregion
    obtain ⟨r, hr, hcode⟩ := hregion
    rw [Locale.text, hr]
    simp only [hlanguage, hcode]
    rfl
  rw [Numerals.ofLocale, Locale.row?, htext, hlanguage]
  rfl

theorem write_runs (s : CalendarStyle) (t : Moment) : s.write t runs =
    s.year 4 t.date.year ++ ("-" ++ (s.month s.names.shortMonths s.names.months 2 t.date.month ++ ("-" ++
      (s.number 2 t.date.day ++ (" " ++ (s.number 2 t.hour ++ (":" ++ (s.number 2 t.minute ++ (":" ++
        (s.number 2 t.second ++ (String.ofList [s.numerals.point] ++ s.fraction t 3 ++ ""))))))))))) :=
  rfl

theorem number_toList {s : CalendarStyle} (hs : s.numerals = .root) {width n : Nat} (h : n < 10 ^ width) :
    (s.number width n).toList = Text.fixedNumeral width n := by
  rw [CalendarStyle.number, String.toList_ofList, hs, ← Text.numeral_eq_fixedNumeral h]
  rfl

theorem fraction_toList {s : CalendarStyle} (hs : s.numerals = .root) {k : Nat}
    (hk : t.nanosecond = k * 1000000) : (s.fraction t 3).toList = Text.fixedNumeral 3 k := by
  have hdigits : (Text.fixedDigits 9 t.nanosecond).take 3 = Text.fixedDigits 3 k := by
    have htake := Text.take_fixedDigits 3 6 t.nanosecond
    rw [hk, Nat.mul_div_cancel _ (by decide)] at htake
    rw [hk]
    exact htake
  rw [CalendarStyle.fraction, String.toList_ofList, hdigits, hs]
  rfl

theorem month_lt (ht : t.IsReading m) : t.date.month < 10 ^ 2 := by
  have := ht.date.month_le
  omega

theorem day_lt (ht : t.IsReading m) : t.date.day < 10 ^ 2 := by
  have hle := ht.date.day_le
  have := CivilDate.monthLength_le t.date.year t.date.month
  omega

theorem fits_fields (ht : t.IsReading m) (hlast : t.date.year ≤ 9999) : Text.Fits slots t.fields := by
  have hyear : t.date.year.toNat < 10 ^ 4 := by omega
  have hhour : t.hour < 10 ^ 2 := by
    have := ht.hour
    omega
  have hminute : t.minute < 10 ^ 2 := by
    have := ht.minute
    omega
  have hsecond : t.second < 10 ^ 2 := by
    have := ht.second
    omega
  have hmilli : t.nanosecond / 1000000 < 10 ^ 3 := by
    obtain ⟨k, hk, hnanos⟩ := ht.milli
    omega
  exact .cons hyear (.cons (month_lt ht) (.cons (day_lt ht) (.cons hhour (.cons hminute (.cons hsecond
    (.cons hmilli .nil))))))

theorem write_toList (hl : Numerals.ofLocale l = .root) (ht : t.IsReading m) (hfirst : 1 ≤ t.date.year)
    (hlast : t.date.year ≤ 9999) :
    ((CalendarStyle.gregorian l).write t runs).toList = writeSlots slots t.fields := by
  have hs : (CalendarStyle.gregorian l).numerals = .root := hl
  have hyear : (CalendarStyle.gregorian l).year 4 t.date.year =
      (CalendarStyle.gregorian l).number 4 t.date.year.toNat := by
    simp [CalendarStyle.year, CalendarStyle.gregorian, Int.lt_iff_add_one_le, hfirst]
  have hmonth : (CalendarStyle.gregorian l).month (CalendarStyle.gregorian l).names.shortMonths
      (CalendarStyle.gregorian l).names.months 2 t.date.month =
      (CalendarStyle.gregorian l).number 2 t.date.month := rfl
  obtain ⟨k, hk, hnanos⟩ := ht.milli
  have hmilli : t.nanosecond / 1000000 = k := by omega
  have hfits := fits_fields ht hlast
  simp only [Text.Fits, slots, Moment.fields, List.forall₂_cons] at hfits
  obtain ⟨hy, hmo, hd, hh, hmi, hsec, -, -⟩ := hfits
  rw [write_runs, hyear, hmonth]
  simp only [String.toList_append, number_toList hs hy, number_toList hs hmo, number_toList hs hd,
    number_toList hs hh, number_toList hs hmi, number_toList hs hsec, fraction_toList hs hnanos, hs]
  simp only [slots, Moment.fields, hmilli, writeSlots, List.append_assoc]
  rfl

theorem write_pattern {n : Int64} (ht : Moment.ofEpochMillis? n.toInt = some t) :
    (pattern l).write (some [.integer n]) = .ok ((CalendarStyle.gregorian l).write t runs) := by
  have hinstant : (Value.integer n).instant .date = .ok t := by
    rw [Value.instant, ht]
  have hoffset := (Moment.isReading_of_ofEpochMillis? ht).utc
  have hrender : DatePattern.render ⟨"yyyy-MM-dd HH:mm:ss.SSS", runs⟩ l t =
      (CalendarStyle.gregorian l).write t runs := by
    rw [DatePattern.render, hoffset]
    exact if_neg (by decide)
  have hplace : MessagePattern.writePlaceholder l (some [.integer n])
      ⟨0, .date (.pattern ⟨"yyyy-MM-dd HH:mm:ss.SSS", runs⟩)⟩ =
        .ok ((CalendarStyle.gregorian l).write t runs) := by
    have hne : Value.integer n ≠ .null := by
      intro h
      cases h
    rw [MessagePattern.writePlaceholder_of_ne_null rfl hne, ArgumentFormat.write, hinstant, ← hrender]
    rfl
  rw [MessagePattern.write, pattern, MessagePattern.writeSegments, hplace]
  simp [MessagePattern.writeSegments, bind, Except.bind, pure, Except.pure]

theorem exists_text (hl : Numerals.ofLocale l = .root) {n : Int64}
    (ht : Moment.ofEpochMillis? n.toInt = some t) (hfirst : 1 ≤ t.date.year) :
    ∃ text, (pattern l).write (some [.integer n]) = .ok text ∧
      text.toList = writeSlots slots t.fields ∧ Text.Fits slots t.fields := by
  have hreading := Moment.isReading_of_ofEpochMillis? ht
  have hlast := Moment.year_le_of_ofEpochMillis? ht
  exact ⟨_, write_pattern ht, write_toList hl hreading hfirst hlast, fits_fields hreading hlast⟩

theorem read?_eq {text : String} (ht : t.IsReading m) (hfirst : 1 ≤ t.date.year)
    (hfits : Text.Fits slots t.fields) (htext : text.toList = writeSlots slots t.fields) :
    read? text = some m := by
  rw [read?, htext, Text.readSlots_writeSlots hfits (by decide), Option.bind_some,
    ht.millisOfFields? (by omega)]

theorem writes_instant_iff {n : Int64} {style : DateStyle} {e : FormatProblem} :
    ((ArgumentFormat.date style).write l (.integer n) = .error e ↔
        (n.toInt < -377705116800000 ∨ 253402300799999 < n.toInt) ∧ e = .typeMismatch .date .integer) ∧
      ((ArgumentFormat.time style).write l (.integer n) = .error e ↔
        (n.toInt < -377705116800000 ∨ 253402300799999 < n.toInt) ∧ e = .typeMismatch .time .integer) := by
  have hrange : ¬(Value.integer n).IsInstant ↔
      n.toInt < -377705116800000 ∨ 253402300799999 < n.toInt := by
    rw [Value.IsInstant, Moment.firstMilli, Moment.lastMilli]
    omega
  rw [ArgumentFormat.write, ArgumentFormat.write, Traversal.map_eq_error_iff, Traversal.map_eq_error_iff,
    Value.instant_eq_error_iff, Value.instant_eq_error_iff, hrange]
  exact ⟨Iff.rfl, Iff.rfl⟩

theorem text_order (hl : Numerals.ofLocale l = .root) {n n' : Int64} {t' : Moment} {text text' : String}
    (ht : Moment.ofEpochMillis? n.toInt = some t) (hfirst : 1 ≤ t.date.year)
    (ht' : Moment.ofEpochMillis? n'.toInt = some t') (hfirst' : 1 ≤ t'.date.year)
    (hwrite : (pattern l).write (some [.integer n]) = .ok text)
    (hwrite' : (pattern l).write (some [.integer n']) = .ok text') :
    (text = text' ↔ n = n') ∧ (text < text' ↔ n < n') := by
  have hreading := Moment.isReading_of_ofEpochMillis? ht
  have hreading' := Moment.isReading_of_ofEpochMillis? ht'
  obtain ⟨_, hsame, htext, hfits⟩ := exists_text hl ht hfirst
  obtain ⟨_, hsame', htext', hfits'⟩ := exists_text hl ht' hfirst'
  rw [hwrite] at hsame
  rw [hwrite'] at hsame'
  cases hsame
  cases hsame'
  have hread := read?_eq hreading hfirst hfits htext
  have hread' := read?_eq hreading' hfirst' hfits' htext'
  constructor
  · constructor
    · intro h
      rw [h, hread', Option.some.injEq] at hread
      exact Int64.toInt_inj.mp hread.symm
    · rintro rfl
      rw [hwrite, Except.ok.injEq] at hwrite'
      exact hwrite'
  · rw [String.lt_iff, htext, htext', Text.writeSlots_lt_iff hfits hfits',
      hreading.fields_lt_iff hreading' (by omega) (by omega), Int64.lt_iff_toInt_lt]

end Timestamp

open Timestamp in
/-- Integers are read as milliseconds exactly. A format of dates or times refuses those whose year has more
than four digits, and the product that others are read by is that of whole numbers. In a year with four
digits the fields written in fixed width are those of the date and the clock; their text is read back, and
texts are in the order of the integers. -/
theorem Timestamp.reads_back {l : Locale} (hlanguage : l.language.code = "en")
    (hregion : l.regionCode = some "US") :
    (∀ (n : Int64) (style : DateStyle) (l' : Locale) (e : FormatProblem),
      ((ArgumentFormat.date style).write l' (.integer n) = .error e ↔
        (n.toInt < -377705116800000 ∨ 253402300799999 < n.toInt) ∧ e = .typeMismatch .date .integer) ∧
      ((ArgumentFormat.time style).write l' (.integer n) = .error e ↔
        (n.toInt < -377705116800000 ∨ 253402300799999 < n.toInt) ∧ e = .typeMismatch .time .integer)) ∧
    (∀ n : Int64, BitVec.smulOverflow (n.toBitVec.signExtend 128) 1000000#128 = false ∧
      (Moment.nanosOfMillis n).toInt = n.toInt * 1000000 ∧
      Moment.ofEpochMillis? n.toInt = Moment.ofEpochNanos? (Moment.nanosOfMillis n).toInt) ∧
    (CivilDate.ofDays 0 = ⟨1970, 1, 1⟩ ∧ ∀ day, CivilDate.ofDays (day + 1) = (CivilDate.ofDays day).next) ∧
    MessagePattern.compile source l = .ok (pattern l) ∧
    (∀ (n : Int64) (t : Moment), Moment.ofEpochMillis? n.toInt = some t → 1 ≤ t.date.year →
      t.IsReading n.toInt ∧ t.date = CivilDate.ofDays (n.toInt / 86400000) ∧
      Text.Fits slots t.fields ∧ ∃ text, (pattern l).write (some [.integer n]) = .ok text ∧
        text.toList = writeSlots slots t.fields ∧ read? text = some n.toInt) ∧
    ∀ (n n' : Int64) (t t' : Moment) (text text' : String),
      Moment.ofEpochMillis? n.toInt = some t → 1 ≤ t.date.year →
      Moment.ofEpochMillis? n'.toInt = some t' → 1 ≤ t'.date.year →
      (pattern l).write (some [.integer n]) = .ok text →
      (pattern l).write (some [.integer n']) = .ok text' →
      (text = text' ↔ n = n') ∧ (text < text' ↔ n < n') := by
  have hl := numerals_english hlanguage hregion
  refine ⟨fun n style l' e => writes_instant_iff, ?_, ?_, compile_source l, ?_, ?_⟩
  · intro n
    rw [Moment.toInt_nanosOfMillis]
    exact ⟨Moment.smulOverflow_millis n, rfl, Moment.ofEpochMillis?_eq _⟩
  · exact ⟨CivilDate.ofDays_zero, CivilDate.ofDays_succ⟩
  · intro n t ht hfirst
    have hreading := Moment.isReading_of_ofEpochMillis? ht
    obtain ⟨text, hwrite, htext, hfits⟩ := exists_text hl ht hfirst
    exact ⟨hreading, Moment.date_of_ofEpochMillis? ht, hfits, text, hwrite, htext,
      read?_eq hreading hfirst hfits htext⟩
  · intro n n' t t' text text' ht hfirst ht' hfirst' hwrite hwrite'
    exact text_order hl ht hfirst ht' hfirst' hwrite hwrite'

open Timestamp in
theorem Timestamp.reads_back_leap_day :
    Locale.unitedStates.language.code = "en" ∧ Locale.unitedStates.regionCode = some "US" ∧
      (pattern .unitedStates).write (some [.integer (-1)]) = .ok "1969-12-31 23:59:59.999" ∧
      (pattern .unitedStates).write (some [.integer 1709213709123]) = .ok "2024-02-29 13:35:09.123" ∧
      read? "2024-02-29 13:35:09.123" = some 1709213709123 ∧
      ("1969-12-31 23:59:59.999" < "2024-02-29 13:35:09.123" ↔ (-1 : Int64) < 1709213709123) := by
  obtain ⟨-, -, -, -, hfields, horder⟩ := reads_back (l := .unitedStates) rfl rfl
  have hbefore : Moment.ofEpochMillis? (-1 : Int64).toInt =
      some ⟨⟨1969, 12, 31⟩, 23, 59, 59, 999000000, 0⟩ := by decide +kernel
  have hleap : Moment.ofEpochMillis? (1709213709123 : Int64).toInt =
      some ⟨⟨2024, 2, 29⟩, 13, 35, 9, 123000000, 0⟩ := by decide +kernel
  obtain ⟨-, -, -, first, hfirst, htext, -⟩ := hfields _ _ hbefore (by decide)
  obtain ⟨-, -, -, later, hlater, htext', hread⟩ := hfields _ _ hleap (by decide)
  have hfirstText : first = "1969-12-31 23:59:59.999" := String.toList_inj.mp (htext.trans rfl)
  have hlaterText : later = "2024-02-29 13:35:09.123" := String.toList_inj.mp (htext'.trans rfl)
  subst hfirstText hlaterText
  exact ⟨rfl, rfl, hfirst, hlater, hread,
    (horder _ _ _ _ _ _ hbefore (by decide) hleap (by decide) hfirst hlater).2⟩

end MessageCatalog
