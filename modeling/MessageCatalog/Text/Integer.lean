namespace MessageCatalog.Text

-- powers of whole numbers are the core library's, whichever others are imported
attribute [instance (high), default_instance (high + 1)] instPowNat

def digitsOnto (n : Nat) (later : List Nat) : List Nat :=
  if n = 0 then later else digitsOnto (n / 10) (n % 10 :: later)
termination_by n
decreasing_by omega

def digits (n : Nat) : List Nat :=
  digitsOnto n []

def fixedDigitsOnto : Nat → Nat → List Nat → List Nat
  | 0, _, later => later
  | width + 1, n, later => fixedDigitsOnto width (n / 10) (n % 10 :: later)

def fixedDigits (width n : Nat) : List Nat :=
  fixedDigitsOnto width n []

def padded (width : Nat) (ds : List Nat) : List Nat :=
  List.replicate (width - ds.length) 0 ++ ds

def digitChar (d : Nat) : Char :=
  Char.ofNat (48 + d)

def numeral (width n : Nat) : List Char :=
  (padded width (digits n)).map digitChar

def natText (n : Nat) : String :=
  String.ofList (numeral 1 n)

def intText (n : Int) : String :=
  if n < 0 then "-" ++ natText n.natAbs else natText n.natAbs

def digitValue (c : Char) : Nat :=
  c.toNat - 48

def value (ds : List Nat) : Nat :=
  ds.foldl (fun n d => n * 10 + d) 0

def nat? (cs : List Char) : Option Nat :=
  if cs.isEmpty || !cs.all Char.isDigit then none else some (value (cs.map digitValue))

def int? : List Char → Option Int
  | '+' :: cs => (nat? cs).map Int.ofNat
  | '-' :: cs => (nat? cs).map fun n => -(n : Int)
  | cs => (nat? cs).map Int.ofNat

def int64? (cs : List Char) : Option Int64 :=
  (int? cs).bind fun n => if -2 ^ 63 ≤ n ∧ n < 2 ^ 63 then some (Int64.ofInt n) else none

def hex (n : Nat) : List Char :=
  Nat.toDigits 16 n

def hexValue? (c : Char) : Option Nat :=
  if c.isDigit then some (c.toNat - 48)
  else if 'a' ≤ c ∧ c ≤ 'f' then some (c.toNat - 87)
  else if 'A' ≤ c ∧ c ≤ 'F' then some (c.toNat - 55)
  else none

def unit? (a b c d : Char) : Option Nat := do
  let a ← hexValue? a
  let b ← hexValue? b
  let c ← hexValue? c
  let d ← hexValue? d
  return ((a * 16 + b) * 16 + c) * 16 + d

def isHighSurrogate (n : Nat) : Bool :=
  0xD800 ≤ n && n < 0xDC00

def isLowSurrogate (n : Nat) : Bool :=
  0xDC00 ≤ n && n < 0xE000

def ofUnit? (n : Nat) : Option Char :=
  if isHighSurrogate n || isLowSurrogate n then none else some (Char.ofNat n)

def ofPair? (high low : Nat) : Option Char :=
  if isHighSurrogate high && isLowSurrogate low then
    some (Char.ofNat (0x10000 + (high - 0xD800) * 0x400 + (low - 0xDC00)))
  else none

end MessageCatalog.Text
