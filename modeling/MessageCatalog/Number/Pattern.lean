import MessageCatalog.Locale.Currency
import MessageCatalog.Number.Digits
import MessageCatalog.Text.Basic

/-!
Patterns of numbers such as `#,##0.00`: a layout of digits between two affixes, perhaps followed by a
semicolon and the affixes of negative numbers. Apostrophes quote; two together are one that stands for
itself.
-/

namespace MessageCatalog

open Text (Mark Run)

inductive NumberPatternProblem where
  | unterminatedQuote
  | digitsAfterSuffix
  | twoScales
  | twoSemicolons
  | noDigits
  | twoPoints
  | openGroup
  | optionalAfterRequired
  | requiredAfterOptional
  | groupInFraction
  deriving DecidableEq, Repr

def NumberPatternProblem.message : NumberPatternProblem → String
  | unterminatedQuote => "unterminated quote"
  | digitsAfterSuffix => "digit characters after suffix"
  | twoScales => "both percent and per mille"
  | twoSemicolons => "more than one ';'"
  | noDigits => "missing digit pattern"
  | twoPoints => "multiple decimal separators"
  | openGroup => "grouping separator at end of integer part"
  | optionalAfterRequired => "unexpected '#' after '0'"
  | requiredAfterOptional => "unexpected '0' after '#'"
  | groupInFraction => "grouping separator in fraction"

namespace DigitLayout

def mostDigits : Nat := 32767

def wholeProblem? : Bool → List Char → Option NumberPatternProblem
  | _, [] => none
  | required, c :: cs =>
    if c = '#' ∧ required then some .optionalAfterRequired else wholeProblem? (required || c = '0') cs

def fractionProblem? : Bool → List Char → Option NumberPatternProblem
  | _, [] => none
  | optional, c :: cs =>
    if c = '0' then
      if optional then some .requiredAfterOptional else fractionProblem? optional cs
    else if c = '#' then fractionProblem? true cs
    else some .groupInFraction

def parse (cs : List Char) : Except NumberPatternProblem DigitLayout :=
  let (whole, rest) := cs.span (· != '.')
  let fraction := rest.drop 1
  if cs.isEmpty then .error .noDigits
  else if fraction.contains '.' then .error .twoPoints
  else if whole.getLast? = some ',' then .error .openGroup
  else
    match (wholeProblem? false whole).or (fractionProblem? false fraction) with
    | some problem => .error problem
    | none =>
      .ok
        { minInteger := min (whole.count '0') mostDigits
          minFraction := min (fraction.count '0') mostDigits
          maxFraction := min fraction.length mostDigits
          grouped := whole.contains ',' }

end DigitLayout

inductive NumberScale where
  | one
  | percent
  | perMille
  deriving DecidableEq, Repr

def NumberScale.factor : NumberScale → Nat
  | one => 1
  | percent => 100
  | perMille => 1000

inductive AffixSign where
  | currency
  deriving DecidableEq, Repr

structure Affixes where
  before : List (Run AffixSign)
  after : List (Run AffixSign)
  deriving DecidableEq

structure NumberPattern where
  positive : Affixes
  negative : Option Affixes
  layout : DigitLayout
  scale : NumberScale
  deriving DecidableEq

namespace NumberPattern

inductive Token where
  | plain (c : Char)
  | quoted (c : Char)
  | unclosed
  deriving DecidableEq

def tokens (inQuote : Bool) : List Char → List Token
  | [] => if inQuote then [.unclosed] else []
  | '\'' :: '\'' :: cs => .quoted '\'' :: tokens inQuote cs
  | '\'' :: cs => tokens (!inQuote) cs
  | c :: cs => (if inQuote then .quoted c else .plain c) :: tokens inQuote cs

structure Parts where
  before : List (Mark AffixSign)
  digits : List Char
  after : List (Mark AffixSign)
  scale : NumberScale

inductive Stage where
  | nothing
  | digits
  | all
  deriving DecidableEq

def Stage.next : Stage → Stage
  | nothing => nothing
  | digits | all => all

namespace Parts

def mark (stage : Stage) (m : Mark AffixSign) (p : Parts) : Parts :=
  match stage.next with
  | .nothing => { p with before := m :: p.before }
  | _ => { p with after := m :: p.after }

def digit (c : Char) (p : Parts) : Parts :=
  { p with digits := c :: p.digits }

def affixes (p : Parts) : Affixes :=
  ⟨Run.ofMarks p.before, Run.ofMarks p.after⟩

end Parts

def isDigitChar (c : Char) : Bool :=
  c == '#' || c == '0' || c == ',' || c == '.'

def scaleOf : Char → NumberScale
  | '%' => .percent
  | '‰' => .perMille
  | _ => .one

def joinScale (scale : NumberScale) (c : Char) : Except NumberPatternProblem NumberScale :=
  if scaleOf c = .one ∨ scale = scaleOf c then .ok scale
  else if scale = .one then .ok (scaleOf c)
  else .error .twoScales

def affixMark (c : Char) : Mark AffixSign :=
  if c = '¤' then .item .currency else .char c

def scan (stage : Stage) (scale : NumberScale) :
    List Token → Except NumberPatternProblem (Parts × List Token)
  | [] => .ok (⟨[], [], [], scale⟩, [])
  | .unclosed :: _ => .error .unterminatedQuote
  | .quoted c :: ts => do
    let (parts, rest) ← scan stage.next scale ts
    return (parts.mark stage (.char c), rest)
  | .plain c :: ts =>
    if c = ';' then .ok (⟨[], [], [], scale⟩, .plain c :: ts)
    else if isDigitChar c then
      if stage = .all then .error .digitsAfterSuffix
      else do
        let (parts, rest) ← scan .digits scale ts
        return (parts.digit c, rest)
    else do
      let scale ← joinScale scale c
      let (parts, rest) ← scan stage.next scale ts
      return (parts.mark stage (affixMark c), rest)

def negativeAffixes : List Token → Except NumberPatternProblem (Option Affixes)
  | [] => .ok none
  | _ :: ts => do
    let (parts, rest) ← scan .nothing .one ts
    if rest.isEmpty then return some parts.affixes else .error .twoSemicolons

def parse (pattern : String) : Except NumberPatternProblem NumberPattern := do
  let (parts, rest) ← scan .nothing .one (tokens false pattern.toList)
  let negative ← negativeAffixes rest
  let layout ← DigitLayout.parse parts.digits
  return ⟨parts.affixes, negative, layout, parts.scale⟩

def affixText (currency : Currency) (affix : List (Run AffixSign)) : String :=
  String.join (affix.map fun
    | .text t => t
    | .item .currency => currency.symbol)

def write (p : NumberPattern) (l : Locale) (x : Numeric) : String :=
  let scaled := x.scale p.scale.factor
  let body := scaled.body p.layout (.ofLocale l)
  let currency := Currency.ofLocale l
  let (sign, affixes) :=
    match scaled.isNegative, p.negative with
    | true, some negative => ("", negative)
    | true, none => ("-", p.positive)
    | false, _ => ("", p.positive)
  sign ++ affixText currency affixes.before ++ body ++ affixText currency affixes.after

end NumberPattern

end MessageCatalog
