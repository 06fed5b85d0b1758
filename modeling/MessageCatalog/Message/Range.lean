import MessageCatalog.Message.Untyped
import MessageCatalog.Text.Basic

namespace MessageCatalog

open Text (Mark Run)

inductive RangeProblem where
  | unmatchedBraces
  | illegalStart (index : String)
  | illegalEnd (index : String)
  deriving DecidableEq, Repr

def RangeProblem.message : RangeProblem → String
  | unmatchedBraces => "unmatched braces"
  | illegalStart index => "illegal start index: '" ++ index ++ "'"
  | illegalEnd index => "illegal end index: '" ++ index ++ "'"

inductive Place where
  | fromStart (index : Nat)
  | fromEnd (offset : Nat)
  deriving DecidableEq, Repr

namespace Place

def most : Nat := 2 ^ 63 - 1

def position (length : Nat) : Place → Int
  | fromStart index => min index most
  | fromEnd offset => (min length most : Nat) - (min offset most : Nat) - 1

def resolve (length : Nat) (p : Place) : Except FormatProblem Nat :=
  let i := p.position length
  if 0 ≤ i ∧ i < length then .ok i.toNat else .error (.indexOutOfRange i length)

def number? (cs : List Char) : Option Nat :=
  (Text.nat? cs).filter (· < 2 ^ 64)

def read? : List Char → Option Place
  | ['n'] => some (fromEnd 0)
  | 'n' :: '-' :: cs => (number? cs).map fromEnd
  | cs => (number? cs).map fromStart

end Place

inductive RangeItem where
  | element (place : Place)
  | join (start : Nat) (separator : String) (stop : Place)
  deriving DecidableEq, Repr

structure RangeBlock where
  start : List Char
  separator : List Char
  stop : List Char

inductive RangePart where
  | start
  | separator
  | stop
  deriving DecidableEq

namespace RangeBlock

def empty : RangeBlock :=
  ⟨[], [], []⟩

def add (b : RangeBlock) (c : Char) : RangePart → RangeBlock
  | .start => { b with start := c :: b.start }
  | .separator => { b with separator := c :: b.separator }
  | .stop => { b with stop := c :: b.stop }

def compile (b : RangeBlock) : Except RangeProblem RangeItem :=
  let start := b.start.reverse
  let stop := b.stop.reverse
  if b.separator.isEmpty ∧ stop.isEmpty then
    match Place.read? start with
    | some place => .ok (.element place)
    | none => .error (.illegalStart (String.ofList start))
  else
    match Place.read? start, Place.read? stop with
    | some (.fromStart index), some place =>
      .ok (.join index (String.ofList b.separator.reverse) place)
    | some (.fromStart _), none => .error (.illegalEnd (String.ofList stop))
    | _, _ => .error (.illegalStart (String.ofList start))

end RangeBlock

inductive RangeScan where
  | text (quoted : Bool)
  | block (part : RangePart) (texts : RangeBlock) (quoted : Bool)

structure RangePattern where
  segments : List (Run RangeItem)
  deriving DecidableEq

namespace RangePattern

def scan : RangeScan → List Char → List (Mark RangeBlock) × RangeScan
  | s, [] => ([], s)
  | .text quoted, c :: cs =>
    if c = '\'' then scan (.text (!quoted)) cs
    else if c = '\x7b' ∧ !quoted then scan (.block .start .empty false) cs
    else (scan (.text quoted) cs).map (.char c :: ·) id
  | .block part texts quoted, c :: cs =>
    if c = '\'' then scan (.block part texts (!quoted)) cs
    else if quoted then scan (.block part (texts.add c part) true) cs
    else if c = '\x7d' then (scan (.text false) cs).map (.item texts :: ·) id
    else
      match c, part with
      | ';', .start => scan (.block .separator texts false) cs
      | ';', .separator => scan (.block .stop texts false) cs
      | _, _ => scan (.block part (texts.add c part) false) cs

def compileMark : Mark RangeBlock → Except RangeProblem (Mark RangeItem)
  | .char c => .ok (.char c)
  | .item block => block.compile.map .item

def compile (pattern : String) : Except RangeProblem RangePattern := do
  let (marks, last) := scan (.text false) pattern.toList
  let items ← marks.mapM compileMark
  match last with
  | .text _ => return ⟨Run.ofMarks items⟩
  | .block .. => .error .unmatchedBraces

def writeItem (elements : List Value) (l : Locale) : RangeItem → Except FormatProblem String
  | .element place => do
    let i ← place.resolve elements.length
    return String.join ((elements.drop i).take 1 |>.map (Value.write l))
  | .join start separator stop => do
    let i ← (Place.fromStart start).resolve elements.length
    let j ← stop.resolve elements.length
    return separator.intercalate (((elements.drop i).take (j + 1 - i)).map (Value.write l))

def writeRuns (elements : List Value) (l : Locale) : List (Run RangeItem) → Except FormatProblem String
  | [] => .ok ""
  | .text t :: rest => (writeRuns elements l rest).map (t ++ ·)
  | .item i :: rest => do
    let now ← writeItem elements l i
    let later ← writeRuns elements l rest
    return now ++ later

def write (p : RangePattern) (elements : List Value) (l : Locale) : Except FormatProblem String :=
  writeRuns elements l p.segments

end RangePattern

end MessageCatalog
