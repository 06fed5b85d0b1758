import MessageCatalog.Calendar.Moment
import MessageCatalog.Calendar.Pattern
import MessageCatalog.Locale.CalendarNames
import MessageCatalog.Locale.Numerals

namespace MessageCatalog

structure CalendarStyle where
  numerals : Numerals
  names : CalendarNames
  yearShift : Option Nat

namespace CalendarStyle

open Text (Run)

def gregorian (l : Locale) : CalendarStyle :=
  ⟨.ofLocale l, .ofLocale l, none⟩

def customary (l : Locale) : CalendarStyle :=
  let names := CalendarNames.ofLocale l
  ⟨.ofLocale l, names, names.yearShift⟩

def number (s : CalendarStyle) (width k : Nat) : String :=
  String.ofList (s.numerals.plain width k)

def signed (negative : Bool) (text : String) : String :=
  (if negative then "-" else "+") ++ text

def year (s : CalendarStyle) (width : Nat) (y : Int) : String :=
  match s.yearShift with
  | some shift => (if y + shift < 0 then "-" else "") ++ s.number 1 (y + shift).natAbs
  | none =>
    let ofEra := (if 0 < y then y else 1 - y).toNat
    if width = 2 then s.number 2 (ofEra % 100) else s.number width ofEra

def nameAt (names : List String) (i : Nat) : String :=
  names[i]?.getD ""

def month (s : CalendarStyle) (short long : List String) (width m : Nat) : String :=
  if width ≤ 2 then s.number width m
  else if width = 3 then nameAt short (m - 1)
  else nameAt long (m - 1)

def namedOffset (s : CalendarStyle) (width : Nat) (offset : Int) : String :=
  let p := OffsetParts.ofSeconds offset
  let seconds := if p.seconds = 0 then "" else ":" ++ s.number 2 p.seconds
  let minutes :=
    if width < 4 ∧ p.minutes = 0 ∧ p.seconds = 0 then "" else ":" ++ s.number 2 p.minutes
  s.names.offsetName ++
    signed (offset < 0) (s.number (if width < 4 then 1 else 2) p.hours ++ minutes ++ seconds)

def digitOffset (offset : Int) (text : String) : String :=
  signed (offset ≤ -3600) text

def basicOffset (offset : Int) : String :=
  let p := OffsetParts.ofSeconds offset
  digitOffset offset
    (Moment.two p.hours ++ Moment.two p.minutes ++
      if p.seconds = 0 then "" else Moment.two p.seconds)

def zuluOffset (width : Nat) (offset : Int) : String :=
  let p := OffsetParts.ofSeconds offset
  if offset = 0 then "Z"
  else if width = 1 then
    digitOffset offset (Moment.two p.hours ++ if p.minutes = 0 then "" else Moment.two p.minutes)
  else if width = 2 then digitOffset offset (Moment.two p.hours ++ Moment.two p.minutes)
  else digitOffset offset (Moment.two p.hours ++ ":" ++ Moment.two p.minutes)

def field (s : CalendarStyle) (m : Moment) (f : Field) : String :=
  let w := f.width
  match f.letter with
  | 'y' => s.year w m.date.year
  | 'G' => nameAt (if w ≤ 3 then s.names.shortEras else s.names.eras) (if 0 < m.date.year then 1 else 0)
  | 'M' => s.month s.names.shortMonths s.names.months w m.date.month
  | 'L' => s.month s.names.aloneShortMonths s.names.aloneMonths w m.date.month
  | 'd' => s.number w m.date.day
  | 'D' => s.number w m.date.dayOfYear
  | 'F' => s.number w ((m.date.day - 1) / 7 + 1)
  | 'E' => nameAt (if w ≤ 3 then s.names.shortDays else s.names.days) m.date.weekday
  | 'a' => nameAt s.names.halves (m.hour / 12)
  | 'H' => s.number w m.hour
  | 'h' => s.number w ((m.hour + 11) % 12 + 1)
  | 'K' => s.number w (m.hour % 12)
  | 'm' => s.number w m.minute
  | 's' => s.number w m.second
  | 'O' => s.namedOffset w m.offset
  | 'Z' => basicOffset m.offset
  | 'X' => zuluOffset w m.offset
  | _ => ""

def fraction (s : CalendarStyle) (m : Moment) (width : Nat) : String :=
  String.ofList (((Text.fixedDigits 9 m.nanosecond).take width).map s.numerals.digit)

def write (s : CalendarStyle) (m : Moment) : List (Run Field) → String
  | [] => ""
  | .text "." :: .item ⟨'S', width⟩ :: rest =>
    String.ofList [s.numerals.point] ++ s.fraction m width ++ write s m rest
  | .text t :: rest => t ++ write s m rest
  | .item f :: rest => s.field m f ++ write s m rest

end CalendarStyle

/-- Writes the moment's own fields. An offset of more than 18 hours has no place in a pattern, and the
moment is written as digits. -/
def DatePattern.render (p : DatePattern) (l : Locale) (m : Moment) : String :=
  if 64800 < m.offset.natAbs then m.text else (CalendarStyle.gregorian l).write m p.runs

end MessageCatalog
