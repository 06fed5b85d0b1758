import MessageCatalog.Binary64.Text
import MessageCatalog.Calendar.Moment
import MessageCatalog.Text.Quoted

namespace MessageCatalog

mutual

inductive Value where
  | null
  | text (t : String)
  | integer (n : Int64)
  | double (x : Binary64)
  | moment (m : Moment)
  | sequence (items : List Value)
  | shown (t : String)
  | deferred (label : String) (target : Deferred)

inductive Deferred where
  | message (key : String) (arguments : List Value)
  | localeText
  | value (v : Value)

end

inductive ValueKind where
  | null
  | text
  | integer
  | double
  | moment
  | sequence
  | shown
  | deferred
  deriving DecidableEq, Repr

def ValueKind.name : ValueKind → String
  | null => "null"
  | text => "text"
  | integer => "integer"
  | double => "float"
  | moment => "date-time"
  | sequence => "sequence"
  | shown => "opaque"
  | deferred => "substitution"

namespace Value

def kind : Value → ValueKind
  | null => .null
  | text _ => .text
  | integer _ => .integer
  | double _ => .double
  | moment _ => .moment
  | sequence _ => .sequence
  | shown _ => .shown
  | deferred _ _ => .deferred

def isNull : Value → Bool
  | null => true
  | _ => false

def text? : Value → Option String
  | text t => some t
  | _ => none

def integer? : Value → Option Int64
  | integer n => some n
  | _ => none

def double? : Value → Option Binary64
  | double x => some x
  | integer n => some (.ofInt n.toInt)
  | _ => none

def moment? : Value → Option Moment
  | moment m => some m
  | _ => none

def items? : Value → Option (List Value)
  | sequence items => some items
  | _ => none

def ofNat (n : Nat) : Value :=
  if n < 2 ^ 63 then integer (Int64.ofNat n) else double (.ofInt n)

mutual

def isPending : Value → Bool
  | deferred _ _ => true
  | sequence items => anyPending items
  | _ => false

def anyPending : List Value → Bool
  | [] => false
  | v :: vs => v.isPending || anyPending vs

end

mutual

def plain : Value → String
  | null => "null"
  | text t => t
  | integer n => Text.intText n.toInt
  | double x => x.plainText
  | moment m => m.text
  | sequence items => "[" ++ ", ".intercalate (plains items) ++ "]"
  | shown t => t
  | deferred label _ => label

def plains : List Value → List String
  | [] => []
  | v :: vs => v.plain :: plains vs

end

mutual

def marked : Value → String
  | null => "Null"
  | text t => "Text(" ++ Text.quoted t ++ ")"
  | integer n => "Integer(" ++ Text.intText n.toInt ++ ")"
  | double x => "Float(" ++ x.markedText ++ ")"
  | moment m => "DateTime(" ++ m.text ++ ")"
  | sequence items => "Sequence([" ++ ", ".intercalate (markeds items) ++ "])"
  | shown t => "Opaque(" ++ Text.quoted t ++ ")"
  | deferred label _ => "Substitution(" ++ label ++ ")"

def markeds : List Value → List String
  | [] => []
  | v :: vs => v.marked :: markeds vs

end

end Value

end MessageCatalog
