import MessageCatalog.Calendar.Layout
import MessageCatalog.Text.Basic

namespace MessageCatalog

inductive DateStyle where
  | default
  | short
  | medium
  | long
  | full
  | pattern (p : DatePattern)
  deriving DecidableEq

def YearLayouts.at (y : YearLayouts) (year : Int) : String :=
  if 1950 ≤ year ∧ year ≤ 2049 then y.near
  else if 1000 ≤ year then y.common
  else y.early

namespace DateStyle

def keywords : List (String × DateStyle) :=
  [("", .default), ("short", .short), ("medium", .medium), ("long", .long), ("full", .full)]

def ofModifier (modifier : String) : Except DatePatternProblem DateStyle :=
  match Text.keyword? keywords modifier.toList with
  | some style => .ok style
  | none => (DatePattern.parse modifier).map .pattern

def layout (l : Locale) (m : Moment) (letters : String) : String :=
  (CalendarStyle.customary l).write m (FieldPattern.read letters.toList).1

def date (style : DateStyle) (l : Locale) (m : Moment) : String :=
  let names := CalendarNames.ofLocale l
  let named (y : YearLayouts) := layout l m (y.at m.date.year)
  match style with
  | pattern p => p.render l m
  | short => named names.shortDate
  | default | medium => named names.mediumDate
  | long => named names.longDate
  | full => named names.fullDate

def time (style : DateStyle) (l : Locale) (m : Moment) : String :=
  let names := CalendarNames.ofLocale l
  match style with
  | pattern p => p.render l m
  | short => layout l m names.shortTime
  | default | medium | long | full => layout l m names.fullTime

end DateStyle

def Moment.short (l : Locale) (m : Moment) : String :=
  DateStyle.layout l m ((CalendarNames.ofLocale l).shortMoment.at m.date.year)

end MessageCatalog
