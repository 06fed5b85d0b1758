import MessageCatalog.Binary64.Text
import MessageCatalog.Locale.Numerals

namespace MessageCatalog

structure DigitLayout where
  minInteger : Nat
  minFraction : Nat
  maxFraction : Nat
  grouped : Bool
  deriving DecidableEq, Repr

def DigitLayout.default : DigitLayout :=
  ⟨1, 0, 3, true⟩

def DigitLayout.integer : DigitLayout :=
  ⟨1, 0, 0, true⟩

structure DigitBody where
  whole : List Nat
  fraction : List Nat
  deriving DecidableEq, Repr

namespace DigitBody

def trimZeros (least : Nat) (ds : List Nat) : List Nat :=
  let kept := (ds.reverse.dropWhile (· == 0)).reverse
  kept ++ List.replicate (least - kept.length) 0

def ofDecimal (layout : DigitLayout) (d : Decimal) : DigitBody :=
  let n := d.scaled layout.maxFraction
  let unit := 10 ^ layout.maxFraction
  { whole := Text.padded (max 1 layout.minInteger) (Text.digits (n / unit))
    fraction := trimZeros layout.minFraction (Text.fixedDigits layout.maxFraction (n % unit)) }

def write (b : DigitBody) (numerals : Numerals) (grouped : Bool) : String :=
  String.ofList
    (numerals.whole grouped b.whole ++
      if b.fraction.isEmpty then [] else numerals.point :: b.fraction.map numerals.digit)

end DigitBody

inductive Numeric where
  | integer (n : Int)
  | double (x : Binary64)

namespace Numeric

def toDouble : Numeric → Binary64
  | integer n => .ofInt n
  | double x => x

def isNegative : Numeric → Bool
  | integer n => n < 0
  | double x => x.isNegative

def scale (k : Nat) : Numeric → Numeric
  | integer n =>
    if k = 1 ∨ (-2 ^ 63 ≤ n * k ∧ n * k < 2 ^ 63) then integer (n * k)
    else double ((Binary64.ofInt n).scale k)
  | double x => double (if k = 1 then x else x.scale k)

def magnitude? : Numeric → Option Decimal
  | integer n => some (.ofNat n.natAbs)
  | double (.signed _ rank) =>
    if rank.val = Binary64.infinityRank then none else some (Binary64.shortest .even rank)
  | double .nan => none

def body (x : Numeric) (layout : DigitLayout) (numerals : Numerals) : String :=
  match x, x.magnitude? with
  | _, some d => (DigitBody.ofDecimal layout d).write numerals layout.grouped
  | double .nan, none => "NaN"
  | _, none => "∞"

def write (x : Numeric) (layout : DigitLayout) (l : Locale) : String :=
  (if x.isNegative then "-" else "") ++ x.body layout (.ofLocale l)

end Numeric

end MessageCatalog
