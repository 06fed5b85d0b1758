import MessageCatalog.Decimal

/-!
Binary floating-point formats. The magnitudes of a format are ordered by their rank: zero has rank 0, the
subnormal and normal ones follow in ascending order, and infinity comes last. A finite magnitude is a
whole number of units, the unit being the least positive magnitude.

Doubles. A double is a sign and the rank of its magnitude, or not a number; so the order of doubles, with
the two zeros equal, is the order of their signed ranks.
-/

namespace MessageCatalog

structure BinaryFormat where
  fractionBits : Nat
  unitPlaces : Nat
  steps : Nat

namespace BinaryFormat

def double : BinaryFormat := ⟨52, 1074, 2047⟩

def single : BinaryFormat := ⟨23, 149, 255⟩

def infinityRank (f : BinaryFormat) : Nat :=
  f.steps * 2 ^ f.fractionBits

def units (f : BinaryFormat) (rank : Nat) : Nat :=
  if rank < 2 ^ f.fractionBits then rank
  else (2 ^ f.fractionBits + rank % 2 ^ f.fractionBits) * 2 ^ (rank / 2 ^ f.fractionBits - 1)

/-- The rank of the magnitude nearest to a quotient; a half goes to the even significand, and what is
nearer to the power of two after the last finite magnitude is infinite. -/
def nearestRank (f : BinaryFormat) (num den : Nat) : Nat :=
  let scaled := num * 2 ^ f.unitPlaces
  let shift := Nat.log2 (scaled / den) - f.fractionBits
  min (shift * 2 ^ f.fractionBits + nearestEven scaled (den * 2 ^ shift)) f.infinityRank

/-- The rank of the magnitude nearest to a decimal. A decimal above `10 ^ 310` is infinite in every
format here and one below `10 ^ -330` is zero, so no larger power of ten is computed. -/
def rankOfDecimal (f : BinaryFormat) (d : Decimal) : Nat :=
  let bits : Int := Nat.log2 d.coefficient
  if d.coefficient = 0 ∨ bits / 3 + 1 + d.exponent < -330 then 0
  else if 310 < bits / 4 + d.exponent then f.infinityRank
  else if 0 ≤ d.exponent then f.nearestRank (d.coefficient * 10 ^ d.exponent.toNat) 1
  else f.nearestRank d.coefficient (10 ^ (-d.exponent).toNat)

end BinaryFormat

inductive Binary64 where
  | nan
  | signed (negative : Bool) (rank : Fin (BinaryFormat.double.infinityRank + 1))
  deriving DecidableEq

namespace Binary64

def infinityRank : Nat :=
  BinaryFormat.double.infinityRank

def ofRank (negative : Bool) (rank : Nat) : Binary64 :=
  .signed negative ⟨min rank infinityRank, by simp only [infinityRank]; omega⟩

def infinity (negative : Bool) : Binary64 :=
  ofRank negative infinityRank

def isNaN : Binary64 → Bool
  | nan => true
  | signed _ _ => false

def isFinite : Binary64 → Bool
  | nan => false
  | signed _ rank => rank < infinityRank

def place : Bool → Nat → Int
  | true, rank => -(rank : Int)
  | false, rank => rank

def le : Binary64 → Binary64 → Bool
  | signed s r, signed t q => place s r ≤ place t q
  | _, _ => false

def isNegative : Binary64 → Bool
  | signed true rank => 0 < rank.val
  | _ => false

def next : Binary64 → Binary64
  | nan => nan
  | signed true rank => if rank.val = 0 then ofRank false 1 else ofRank true (rank - 1)
  | signed false rank => ofRank false (rank + 1)

def units (rank : Nat) : Nat :=
  BinaryFormat.double.units rank

def ofInt (n : Int) : Binary64 :=
  ofRank (n < 0) (BinaryFormat.double.nearestRank n.natAbs 1)

def scale (k : Nat) : Binary64 → Binary64
  | nan => nan
  | signed s rank =>
    if rank.val = infinityRank then signed s rank
    else ofRank s (BinaryFormat.double.nearestRank (units rank * k) (2 ^ 1074))

def productRank (a b : Nat) : Nat :=
  BinaryFormat.double.nearestRank (units a * units b) (2 ^ 2148)

def ofSingle (negative : Bool) (rank : Nat) : Binary64 :=
  if BinaryFormat.single.infinityRank ≤ rank then infinity negative
  else ofRank negative (BinaryFormat.double.nearestRank (BinaryFormat.single.units rank) (2 ^ 149))

end Binary64

end MessageCatalog
