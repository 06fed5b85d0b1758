import MessageCatalog.Message.ArgumentFormat

/-!
Message patterns: texts and placeholders. A placeholder is a pair of braces around the index of an
argument and perhaps a type and a modifier. In a text an apostrophe starts or ends a quotation, in which
braces stand for themselves; two apostrophes together are one that stands for itself.
-/

namespace MessageCatalog

open Text (Mark Run)

structure Placeholder where
  index : Nat
  format : ArgumentFormat
  deriving DecidableEq

/-- The three texts of a placeholder, the last character of each first. -/
structure PlaceholderTexts where
  index : List Char
  keyword : List Char
  modifier : List Char

inductive PlaceholderPart where
  | index
  | keyword
  | modifier
  deriving DecidableEq

namespace PlaceholderPart

def next? : PlaceholderPart → Option PlaceholderPart
  | index => some keyword
  | keyword => some modifier
  | modifier => none

end PlaceholderPart

namespace PlaceholderTexts

def empty : PlaceholderTexts :=
  ⟨[], [], []⟩

def add (t : PlaceholderTexts) (c : Char) : PlaceholderPart → PlaceholderTexts
  | .index => { t with index := c :: t.index }
  | .keyword => { t with keyword := c :: t.keyword }
  | .modifier => { t with modifier := c :: t.modifier }

def readIndex (cs : List Char) : Except PatternProblem Nat :=
  match Text.int64? cs with
  | none => .error (.invalidIndex (String.ofList cs))
  | some n => if n < 0 then .error (.negativeIndex n.toInt) else .ok n.toInt.toNat

def compile (t : PlaceholderTexts) : Except PatternProblem Placeholder := do
  let index ← readIndex t.index.reverse
  let format ← ArgumentFormat.ofParts (String.ofList t.keyword.reverse) (String.ofList t.modifier.reverse)
  return ⟨index, format⟩

end PlaceholderTexts

inductive PatternScan where
  | text (quoted : Bool)
  | placeholder (part : PlaceholderPart) (texts : PlaceholderTexts) (depth : Nat) (quoted : Bool)

abbrev Segment := Run Placeholder

structure MessagePattern where
  source : String
  locale : Locale
  segments : List Segment
  deriving DecidableEq

namespace MessagePattern

/-- The characters and placeholders of a pattern, and where the scan stands at its end. A brace before a
percent sign opens no placeholder. Spaces before a type are skipped. -/
def scan : PatternScan → List Char → List (Mark PlaceholderTexts) × PatternScan
  | s, [] => ([], s)
  | .text quoted, '\'' :: '\'' :: cs => (scan (.text quoted) cs).map (.char '\'' :: ·) id
  | .text quoted, c :: cs =>
    if c = '\'' then scan (.text (!quoted)) cs
    else if c = '\x7b' ∧ !quoted ∧ cs.head? ≠ some '%' then
      scan (.placeholder .index .empty 0 false) cs
    else (scan (.text quoted) cs).map (.char c :: ·) id
  | .placeholder part texts depth quoted, c :: cs =>
    if c = '\'' then scan (.placeholder part texts depth (!quoted)) cs
    else if quoted then scan (.placeholder part (texts.add c part) depth true) cs
    else if c = ',' ∧ part ≠ .modifier then
      scan (.placeholder (part.next?.getD part) texts depth false) cs
    else if c = '\x7b' then scan (.placeholder part (texts.add c part) (depth + 1) false) cs
    else if c = '\x7d' then
      match depth with
      | 0 => (scan (.text false) cs).map (.item texts :: ·) id
      | depth + 1 => scan (.placeholder part (texts.add c part) depth false) cs
    else if c = ' ' ∧ part = .keyword ∧ texts.keyword.isEmpty then
      scan (.placeholder part texts depth false) cs
    else scan (.placeholder part (texts.add c part) depth false) cs

def compileMark : Mark PlaceholderTexts → Except PatternProblem (Mark Placeholder)
  | .char c => .ok (.char c)
  | .item texts => texts.compile.map .item

def segmentsOf (cs : List Char) : Except PatternProblem (List Segment) := do
  let (marks, last) := scan (.text false) cs
  let items ← marks.mapM compileMark
  match last with
  | .text _ => return Run.ofMarks items
  | .placeholder .. => .error .unmatchedBraces

def compile (source : String) (locale : Locale) : Except PatternProblem MessagePattern :=
  (segmentsOf source.toList).map fun segments => ⟨source, locale, segments⟩

def placeholders (p : MessagePattern) : List Placeholder :=
  Run.items p.segments

def writePlaceholder (l : Locale) (arguments : Option (List Value)) (p : Placeholder) :
    Except FormatProblem String :=
  match arguments.bind fun vs => vs[p.index]? with
  | none => .ok ("\x7b" ++ Text.natText p.index ++ "\x7d")
  | some .null => .ok "null"
  | some v => p.format.write l v

def writeSegments (l : Locale) (arguments : Option (List Value)) :
    List Segment → Except FormatProblem String
  | [] => .ok ""
  | .text t :: rest => (writeSegments l arguments rest).map (t ++ ·)
  | .item p :: rest => do
    let now ← writePlaceholder l arguments p
    let later ← writeSegments l arguments rest
    return now ++ later

def write (p : MessagePattern) (arguments : Option (List Value)) : Except FormatProblem String :=
  writeSegments p.locale arguments p.segments

end MessagePattern

end MessageCatalog
