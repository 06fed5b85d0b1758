namespace MessageCatalog

-- powers of whole numbers are the core library's, whichever others are imported
attribute [instance (high), default_instance (high + 1)] instPowNat

def nearestEven (num den : Nat) : Nat :=
  let below := num / den
  let twice := 2 * (num % den)
  if twice > den ∨ (twice = den ∧ below % 2 = 1) then below + 1 else below

structure Decimal where
  coefficient : Nat
  exponent : Int
  deriving DecidableEq, Repr

namespace Decimal

def ofNat (n : Nat) : Decimal :=
  ⟨n, 0⟩

def scaled (d : Decimal) (places : Nat) : Nat :=
  let e := d.exponent + places
  if 0 ≤ e then d.coefficient * 10 ^ e.toNat else nearestEven d.coefficient (10 ^ (-e).toNat)

end Decimal

end MessageCatalog
