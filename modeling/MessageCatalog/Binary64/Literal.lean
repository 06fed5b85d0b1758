import MessageCatalog.Binary64.Basic
import MessageCatalog.Text.Integer

namespace MessageCatalog

inductive BinaryLiteral where
  | nan
  | infinity (negative : Bool)
  | decimal (negative : Bool) (value : Decimal)

namespace BinaryLiteral

def exponent? : List Char → Option Int
  | [] => some 0
  | c :: cs => if c = 'e' ∨ c = 'E' then Text.int? cs else none

def fraction : List Char → List Char × List Char
  | '.' :: cs => cs.span Char.isDigit
  | cs => ([], cs)

def decimal? (cs : List Char) : Option Decimal :=
  let (whole, rest) := cs.span Char.isDigit
  let (part, rest) := fraction rest
  let ds := whole ++ part
  if ds.isEmpty then none
  else (exponent? rest).map fun e => ⟨Text.value (ds.map Text.digitValue), e - part.length⟩

def magnitude? (negative : Bool) (cs : List Char) : Option BinaryLiteral :=
  let word := String.ofList (cs.map Char.toLower)
  if word = "inf" ∨ word = "infinity" then some (.infinity negative)
  else if word = "nan" then some .nan
  else (decimal? cs).map (.decimal negative)

def read? : List Char → Option BinaryLiteral
  | '-' :: cs => magnitude? true cs
  | '+' :: cs => magnitude? false cs
  | cs => magnitude? false cs

def toDouble : BinaryLiteral → Binary64
  | nan => .nan
  | infinity s => .infinity s
  | decimal s d => .ofRank s (BinaryFormat.double.rankOfDecimal d)

def toSingle : BinaryLiteral → Binary64
  | nan => .nan
  | infinity s => .infinity s
  | decimal s d => .ofSingle s (BinaryFormat.single.rankOfDecimal d)

end BinaryLiteral

def Binary64.read? (cs : List Char) : Option Binary64 :=
  (BinaryLiteral.read? cs).map BinaryLiteral.toDouble

end MessageCatalog
