import MessageCatalog.Calendar.Style
import MessageCatalog.Number.Style
import MessageCatalog.Value

namespace MessageCatalog

inductive Wanted where
  | number
  | date
  | time
  deriving DecidableEq, Repr

def Wanted.name : Wanted → String
  | number => "number"
  | date => "date"
  | time => "time"

inductive FormatProblem where
  | indexOutOfRange (index : Int) (length : Nat)
  | typeMismatch (expected : Wanted) (found : ValueKind)
  deriving DecidableEq, Repr

def FormatProblem.message : FormatProblem → String
  | indexOutOfRange index length =>
    "index out of range: " ++ Text.intText index ++ " in sequence of length " ++ Text.natText length
  | typeMismatch expected found => "cannot format " ++ found.name ++ " as " ++ expected.name

namespace Value

def write (l : Locale) : Value → String
  | null => "null"
  | text t => t
  | integer n => NumberStyle.default.write l (.integer n.toInt)
  | double x => NumberStyle.default.write l (.double x)
  | moment m => m.short l
  | v => v.plain

def numeric (v : Value) : Except FormatProblem Numeric :=
  match v with
  | integer n => .ok (.integer n.toInt)
  | double x => .ok (.double x)
  | _ => .error (.typeMismatch .number v.kind)

def instant (wanted : Wanted) (v : Value) : Except FormatProblem Moment :=
  let found? :=
    match v with
    | moment m => some m
    | integer n => Moment.ofEpochMillis? n.toInt
    | _ => none
  match found? with
  | some m => .ok m
  | none => .error (.typeMismatch wanted v.kind)

end Value

end MessageCatalog
