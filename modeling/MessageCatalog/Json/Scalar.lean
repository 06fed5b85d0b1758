import MessageCatalog.Binary64.Literal
import MessageCatalog.Json.Text

namespace MessageCatalog.Json

def word : List Char → List Char → Except Problem (List Char)
  | [], cs => .ok cs
  | _ :: _, [] => .error .truncated
  | c :: word', d :: cs => if c = d then word word' cs else .error .malformed

def someDigits (atEnd : Problem) (cs : List Char) : Except Problem (List Char × List Char) :=
  match cs.span Char.isDigit with
  | ([], []) => .error atEnd
  | ([], _) => .error .malformed
  | (ds, rest) => .ok (ds, rest)

def wholeDigits (atEnd : Problem) (cs : List Char) : Except Problem (List Char × List Char) := do
  let (ds, rest) ← someDigits atEnd cs
  if ds.head? = some '0' ∧ 1 < ds.length then .error .malformed else return (ds, rest)

def fractionDigits (atEnd : Problem) : List Char → Except Problem (List Char × List Char)
  | '.' :: cs => someDigits atEnd cs
  | cs => .ok ([], cs)

def signed : List Char → Bool × List Char
  | '-' :: cs => (true, cs)
  | '+' :: cs => (false, cs)
  | cs => (false, cs)

def exponent (atEnd : Problem) : List Char → Except Problem (Int × List Char)
  | [] => .ok (0, [])
  | c :: cs =>
    if c = 'e' ∨ c = 'E' then do
      let (negative, cs) := signed cs
      let (ds, rest) ← someDigits atEnd cs
      let n : Int := Text.value (ds.map Text.digitValue)
      return (if negative then -n else n, rest)
    else .ok (0, c :: cs)

def appendDigits (n : Nat) : List Nat → Nat × List Nat
  | [] => (n, [])
  | d :: ds => if n * 10 + d < 2 ^ 64 then appendDigits (n * 10 + d) ds else (n, d :: ds)

/-- The first digits of an absolute value with their power of ten, and what follows the number. Digits left
over before the point count for the power only. -/
def magnitude (atEnd : Problem) (cs : List Char) : Except Problem (Decimal × List Char) := do
  let (whole, cs) ← wholeDigits atEnd cs
  let (fraction, cs) ← fractionDigits atEnd cs
  let (e, rest) ← exponent atEnd cs
  let (n, beyond) := appendDigits 0 (whole.map Text.digitValue)
  let (n, dropped) := appendDigits n (fraction.map Text.digitValue)
  return (⟨n, e + beyond.length + dropped.length - fraction.length⟩, rest)

def mostPower : Int := 308

def isFinite (d : Decimal) : Bool :=
  d.coefficient = 0 || d.exponent < 0 ||
    (d.exponent ≤ mostPower &&
      Binary64.productRank (BinaryFormat.double.nearestRank d.coefficient 1)
          (BinaryFormat.double.rankOfDecimal ⟨1, d.exponent⟩) < Binary64.infinityRank)

def readNumber (cs : List Char) : Except Problem (List Char) := do
  let (d, rest) ← magnitude .truncated cs
  if isFinite d then return rest else .error .malformed

def skipNumber (cs : List Char) : Except Problem (List Char) := do
  let (_, rest) ← magnitude .malformed cs
  return rest

def shapeProblem (cs : List Char) : Problem :=
  let after (r : Except Problem (List Char)) : Problem :=
    match r with
    | .ok _ => .unexpected
    | .error p => p
  match cs with
  | [] => .truncated
  | 'n' :: cs => after (word ['u', 'l', 'l'] cs)
  | 't' :: cs => after (word ['r', 'u', 'e'] cs)
  | 'f' :: cs => after (word ['a', 'l', 's', 'e'] cs)
  | '"' :: cs => after ((readChars cs).map (·.2))
  | '-' :: cs => after (readNumber cs)
  | '[' :: _ => .unexpected
  | '\x7b' :: _ => .unexpected
  | c :: cs => if c.isDigit then after (readNumber (c :: cs)) else .malformed

end MessageCatalog.Json
