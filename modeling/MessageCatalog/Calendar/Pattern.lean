import MessageCatalog.Text.Basic

/-!
Patterns of field letters. A run of one ASCII letter is a field; other characters stand for themselves,
and so do all between apostrophes. Two apostrophes together are one that stands for itself.

A written pattern is put into standard form: the letters that the form knows, at the widths it knows, with
all other text between apostrophes.
-/

namespace MessageCatalog

structure Field where
  letter : Char
  width : Nat
  deriving DecidableEq, Repr

inductive DatePatternProblem where
  | unterminatedQuote
  | unsupportedField (letter : Char)
  | misplacedFraction
  | longFraction
  | conflictingFields
  deriving DecidableEq, Repr

def DatePatternProblem.message : DatePatternProblem → String
  | unterminatedQuote => "unterminated quote"
  | unsupportedField letter => "unsupported field '" ++ String.ofList [letter] ++ "'"
  | misplacedFraction => "fraction digits 'S' must follow 'ss.'"
  | longFraction => "Second(Second) invalid field length in pattern"
  | conflictingFields => "a field conflicts with an earlier field of another width"

namespace FieldPattern

open Text (Mark Run)

def isLetter (c : Char) : Bool :=
  ('a' ≤ c && c ≤ 'z') || ('A' ≤ c && c ≤ 'Z')

def marks (quoted : Bool) : List Char → List (Mark Char) × Bool
  | [] => ([], !quoted)
  | '\'' :: '\'' :: cs => (marks quoted cs).map (.char '\'' :: ·) id
  | '\'' :: cs => marks (!quoted) cs
  | c :: cs => (marks quoted cs).map ((if quoted || !isLetter c then .char c else .item c) :: ·) id

def fields : List (Mark Char) → List (Mark Field)
  | [] => []
  | .char c :: ms => .char c :: fields ms
  | .item letter :: ms =>
    match fields ms with
    | .item f :: rest =>
      if f.letter = letter then .item ⟨letter, f.width + 1⟩ :: rest
      else .item ⟨letter, 1⟩ :: .item f :: rest
    | rest => .item ⟨letter, 1⟩ :: rest

def read (cs : List Char) : List (Run Field) × Bool :=
  (marks false cs).map (fun ms => Run.ofMarks (fields ms)) id

def standard? (f : Field) : Option Field :=
  let upTo (most : Nat) := some (Field.mk f.letter (min f.width most))
  match f.letter with
  | 'G' | 'y' | 'M' | 'L' | 'E' => upTo 4
  | 'D' | 'X' => upTo 3
  | 'd' | 'H' | 'h' | 'K' | 'm' | 's' => upTo 2
  | 'F' | 'a' | 'Z' => upTo 1
  | 'z' => some ⟨'O', if 4 ≤ f.width then 4 else 1⟩
  | _ => none

def quote (t : String) : List Char :=
  if t.isEmpty then []
  else '\'' :: t.toList.flatMap (fun c => if c = '\'' then ['\'', '\''] else [c]) ++ ['\'']

/-- The standard form of a field after a text, when `last` is the letter of the field before. A fraction
stands only after the seconds and a point, which stays outside the apostrophes. -/
def standardField (last : Option Char) (before : String) (f : Field) :
    Except DatePatternProblem (List Char) :=
  if f.letter = 'S' then
    if last = some 's' ∧ before = "." then .ok ('.' :: List.replicate f.width 'S')
    else .error .misplacedFraction
  else
    match standard? f with
    | some g => .ok (quote before ++ List.replicate g.width g.letter)
    | none => .error (.unsupportedField f.letter)

def standardRuns (last : Option Char) (before : String) :
    List (Run Field) → Except DatePatternProblem (List Char)
  | [] => .ok (quote before)
  | .text t :: rest => standardRuns last (before ++ t) rest
  | .item f :: rest => do
    let now ← standardField last before f
    let later ← standardRuns (some f.letter) "" rest
    return now ++ later

def standardize (cs : List Char) : Except DatePatternProblem (List Char) := do
  let (runs, closed) := read cs
  let form ← standardRuns none "" runs
  if closed then return form else .error .unterminatedQuote

inductive NameKind where
  | month
  | era
  | weekday
  deriving DecidableEq

def names? (f : Field) : Option (NameKind × Char × Nat) :=
  match f.letter with
  | 'M' | 'L' => some (.month, f.letter, max f.width 2)
  | 'G' => some (.era, 'G', max f.width 3)
  | 'E' => some (.weekday, 'E', max f.width 3)
  | _ => none

def conflict (f g : Field) : Bool :=
  match names? f, names? g with
  | some (k, form), some (l, other) => k = l && form ≠ other
  | _, _ => false

def hasConflict : List Field → Bool
  | [] => false
  | f :: fs => fs.any (conflict f) || hasConflict fs

end FieldPattern

structure DatePattern where
  source : String
  runs : List (Text.Run Field)
  deriving DecidableEq

namespace DatePattern

open FieldPattern

def parse (source : String) : Except DatePatternProblem DatePattern := do
  let form ← standardize source.toList
  let runs := (read form).1
  let fs := Text.Run.items runs
  if fs.any fun f => f.letter = 'S' ∧ 9 < f.width then .error .longFraction
  else if hasConflict fs then .error .conflictingFields
  else return ⟨source, runs⟩

end DatePattern

end MessageCatalog
