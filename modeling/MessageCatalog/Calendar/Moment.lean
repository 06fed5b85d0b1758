import MessageCatalog.Text.Integer

namespace MessageCatalog

structure CivilDate where
  year : Int
  month : Nat
  day : Nat
  deriving DecidableEq, Repr

namespace CivilDate

def isLeap (year : Int) : Bool :=
  year % 4 == 0 && (year % 100 != 0 || year % 400 == 0)

def monthLengths (leap : Bool) : List Nat :=
  [31, if leap then 29 else 28, 31, 30, 31, 30, 31, 31, 30, 31, 30, 31]

def daysBeforeYear (year : Int) : Int :=
  let y := year - 1
  365 * y + y / 4 - y / 100 + y / 400

def firstDay : Int := 719162

def dayOfYear (d : CivilDate) : Nat :=
  ((monthLengths (isLeap d.year)).take (d.month - 1)).foldr (· + ·) d.day

def toDays (d : CivilDate) : Int :=
  daysBeforeYear d.year + (d.dayOfYear - 1) - firstDay

/-- The year of a day counted from the first day of year 1, and the days of that year before it. A cycle
of 400 years has 146097 days; its four centuries, their groups of four years and the years of a group
are taken off in turn, and the last day of a long century or group stays in it. -/
def yearOfDay (n : Int) : Int × Nat :=
  let inCycle := (n % 146097).toNat
  let centuries := min (inCycle / 36524) 3
  let inCentury := inCycle - 36524 * centuries
  let groups := inCentury / 1461
  let inGroup := inCentury - 1461 * groups
  let years := min (inGroup / 365) 3
  (400 * (n / 146097) + 100 * centuries + 4 * groups + years + 1, inGroup - 365 * years)

def monthOfDay : List Nat → Nat → Nat → Nat × Nat
  | [], month, before => (month, before + 1)
  | length :: rest, month, before =>
    if before < length then (month, before + 1) else monthOfDay rest (month + 1) (before - length)

def ofDays (n : Int) : CivilDate :=
  let (year, before) := yearOfDay (n + firstDay)
  let (month, day) := monthOfDay (monthLengths (isLeap year)) 1 before
  ⟨year, month, day⟩

def weekday (d : CivilDate) : Nat :=
  ((d.toDays + firstDay) % 7).toNat

end CivilDate

structure Moment where
  date : CivilDate
  hour : Nat
  minute : Nat
  second : Nat
  nanosecond : Nat
  /-- Seconds that the clock is ahead of UTC. -/
  offset : Int
  deriving DecidableEq, Repr

structure OffsetParts where
  hours : Nat
  minutes : Nat
  seconds : Nat

def OffsetParts.ofSeconds (offset : Int) : OffsetParts :=
  let n := offset.natAbs
  ⟨n / 3600, n / 60 % 60, n % 60⟩

namespace Moment

def millisPerDay : Int := 86400000

def firstMilli : Int := -377705116800000

def lastMilli : Int := 253402300799999

def ofEpochMillis? (ms : Int) : Option Moment :=
  if firstMilli ≤ ms ∧ ms ≤ lastMilli then
    let inDay := (ms % millisPerDay).toNat
    some
      { date := .ofDays (ms / millisPerDay)
        hour := inDay / 3600000
        minute := inDay / 60000 % 60
        second := inDay / 1000 % 60
        nanosecond := inDay % 1000 * 1000000
        offset := 0 }
  else none

def two (n : Nat) : String :=
  String.ofList (Text.numeral 2 n)

def yearText (year : Int) : String :=
  (if year < 0 then "-" else "") ++ String.ofList (Text.numeral 4 year.natAbs)

def fractionText (nanosecond : Nat) : String :=
  match ((Text.fixedDigits 9 nanosecond).reverse.dropWhile (· == 0)).reverse with
  | [] => "0"
  | ds => String.ofList (ds.map Text.digitChar)

def offsetText (offset : Int) : String :=
  let p := OffsetParts.ofSeconds offset
  (if offset < 0 then "-" else "+") ++ two p.hours ++ ":" ++ two p.minutes ++ ":" ++ two p.seconds

def text (m : Moment) : String :=
  yearText m.date.year ++ "-" ++ two m.date.month ++ "-" ++ two m.date.day ++ " " ++
    Text.natText m.hour ++ ":" ++ two m.minute ++ ":" ++ two m.second ++ "." ++
    fractionText m.nanosecond ++ " " ++ offsetText m.offset

end Moment

end MessageCatalog
