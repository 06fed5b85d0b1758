import MessageCatalog.Binary64.Basic
import MessageCatalog.Text.Integer

namespace MessageCatalog

inductive TieRule where
  | up
  | even

namespace Binary64

/-- A positive magnitude and its halfway points, all over one power of two. The halfway points read back
as the magnitude only if its rank is even. -/
structure Interval where
  low : Nat
  mid : Nat
  high : Nat
  closed : Bool

namespace Interval

def ofRank (rank : Nat) : Interval where
  low := units (rank - 1) + units rank
  mid := 2 * units rank
  high := units rank + units (rank + 1)
  closed := rank % 2 == 0

def times (i : Interval) (k : Nat) : Interval :=
  { i with low := i.low * k, mid := i.mid * k, high := i.high * k }

def holds (i : Interval) (x : Nat) : Bool :=
  if i.closed then i.low ≤ x && x ≤ i.high else i.low < x && x < i.high

def upper (tie : TieRule) (below twice den : Nat) : Bool :=
  if twice = den then
    match tie with
    | .up => true
    | .even => below % 2 == 1
  else den < twice

def neighbour? (i : Interval) (tie : TieRule) (den : Nat) : Option Nat :=
  let below := i.mid / den
  match i.holds (below * den), i.holds ((below + 1) * den) with
  | true, true => some (if upper tie below (2 * (i.mid % den)) den then below + 1 else below)
  | true, false => some below
  | false, true => some (below + 1)
  | false, false => none

def onGrid? (i : Interval) (tie : TieRule) (e : Int) : Option Nat :=
  if 0 ≤ e then i.neighbour? tie (2 ^ 1075 * 10 ^ e.toNat)
  else (i.times (10 ^ (-e).toNat)).neighbour? tie (2 ^ 1075)

def firstPlace (i : Interval) : Int :=
  (Text.digits (i.mid * 10 ^ 340 / 2 ^ 1075)).length - 340

/-- The first grid with a neighbour in the interval, from the grid of `10 ^ e` on. Seventeen digits
always suffice. Only ten, on the coarsest grid, can end in a zero. -/
def search (i : Interval) (tie : TieRule) : Nat → Int → Decimal
  | 0, e => ⟨i.mid, e⟩
  | tries + 1, e =>
    match i.onGrid? tie e with
    | some 10 => ⟨1, e + 1⟩
    | some n => ⟨n, e⟩
    | none => search i tie tries (e - 1)

end Interval

def shortest (tie : TieRule) (rank : Nat) : Decimal :=
  let i := Interval.ofRank rank
  if rank = 0 then ⟨0, 0⟩ else i.search tie 17 (i.firstPlace - 1)

end Binary64

namespace Decimal

def plain (d : Decimal) : String :=
  if 0 ≤ d.exponent then Text.natText (d.coefficient * 10 ^ d.exponent.toNat)
  else
    let places := (-d.exponent).toNat
    Text.natText (d.coefficient / 10 ^ places) ++ "." ++
      String.ofList ((Text.fixedDigits places (d.coefficient % 10 ^ places)).map Text.digitChar)

def scientific (d : Decimal) : String :=
  match Text.numeral 1 d.coefficient with
  | [] => ""
  | [c] => String.ofList [c] ++ "e" ++ Text.intText d.exponent
  | c :: cs =>
    String.ofList (c :: '.' :: cs) ++ "e" ++ Text.intText (d.exponent + cs.length)

def isPlain (d : Decimal) : Bool :=
  let place := d.exponent + (Text.digits d.coefficient).length
  d.coefficient = 0 || (-3 ≤ place && place ≤ 16)

def marked (d : Decimal) : String :=
  if !d.isPlain then d.scientific
  else if 0 ≤ d.exponent then d.plain ++ ".0"
  else d.plain

end Decimal

namespace Binary64

def textBy (write : Decimal → String) : Binary64 → String
  | nan => "NaN"
  | signed s rank =>
    (if s then "-" else "") ++
      (if rank.val = infinityRank then "inf" else write (shortest .up rank))

def plainText : Binary64 → String :=
  textBy Decimal.plain

def markedText : Binary64 → String :=
  textBy Decimal.marked

end Binary64

end MessageCatalog
