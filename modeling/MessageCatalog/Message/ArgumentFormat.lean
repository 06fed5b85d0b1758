import MessageCatalog.Message.Choice
import MessageCatalog.Message.Range

namespace MessageCatalog

inductive PatternProblem where
  | unmatchedBraces
  | invalidIndex (index : String)
  | negativeIndex (index : Int)
  | unknownType (keyword : String)
  | invalidNumber (pattern : String) (problem : NumberPatternProblem)
  | invalidDate (pattern : String) (problem : DatePatternProblem)
  | invalidChoice (pattern : String) (problem : ChoiceProblem)
  | invalidRange (pattern : String) (problem : RangeProblem)
  deriving DecidableEq, Repr

namespace PatternProblem

def invalid (what pattern reason : String) : String :=
  "invalid " ++ what ++ " pattern '" ++ pattern ++ "': " ++ reason

def message : PatternProblem → String
  | unmatchedBraces => "unmatched braces in pattern"
  | invalidIndex index => "can't parse argument number: '" ++ index ++ "'"
  | negativeIndex index => "negative argument number: " ++ Text.intText index
  | unknownType keyword => "unknown format type: '" ++ keyword ++ "'"
  | invalidNumber pattern problem => invalid "number" pattern problem.message
  | invalidDate pattern problem => invalid "date" pattern problem.message
  | invalidChoice pattern problem => invalid "choice" pattern problem.message
  | invalidRange pattern problem => invalid "range" pattern problem.message

end PatternProblem

inductive ArgumentFormat where
  | untyped
  | number (style : NumberStyle)
  | date (style : DateStyle)
  | time (style : DateStyle)
  | choice (c : Choice)
  | range (p : RangePattern)
  deriving DecidableEq

namespace ArgumentFormat

inductive Kind where
  | untyped
  | number
  | date
  | time
  | choice
  | range

def keywords : List (String × Kind) :=
  [("", .untyped), ("number", .number), ("date", .date), ("time", .time), ("choice", .choice),
    ("range", .range)]

def ofParts (keyword modifier : String) : Except PatternProblem ArgumentFormat :=
  match Text.keyword? keywords keyword.toList with
  | none => .error (.unknownType keyword)
  | some .untyped => .ok untyped
  | some .number => ((NumberStyle.ofModifier modifier).mapError (.invalidNumber modifier)).map number
  | some .date => ((DateStyle.ofModifier modifier).mapError (.invalidDate modifier)).map date
  | some .time => ((DateStyle.ofModifier modifier).mapError (.invalidDate modifier)).map time
  | some .choice => ((Choice.parse modifier).mapError (.invalidChoice modifier)).map choice
  | some .range => ((RangePattern.compile modifier).mapError (.invalidRange modifier)).map range

def write (l : Locale) (v : Value) : ArgumentFormat → Except FormatProblem String
  | untyped => .ok (v.write l)
  | number style => v.numeric.map (style.write l)
  | date style => (v.instant .date).map (style.date l)
  | time style => (v.instant .time).map (style.time l)
  | choice c => v.numeric.map fun x => c.select x.toDouble
  | range p => p.write (v.items?.getD []) l

end ArgumentFormat

end MessageCatalog
