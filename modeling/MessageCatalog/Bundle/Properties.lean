import MessageCatalog.Text.Integer
import MessageCatalog.Text.Basic

/-!
Properties: lines of a key and a value. Blank lines and comments are dropped; a line that ends in an odd
number of backslashes goes on in the next. In a key or a value a backslash escapes a character, and `\u`
with four hexadecimal digits stands for a code unit.
-/

namespace MessageCatalog

structure PropertiesProblem where
  line : Nat
  deriving DecidableEq, Repr

def PropertiesProblem.message (p : PropertiesProblem) : String :=
  Text.natText p.line ++ ": malformed entry: invalid unicode escape"

namespace Properties

def isPad (c : Char) : Bool :=
  c == ' ' || c == '\t' || c == '\x0c'

def dropReturn (line : List Char) : List Char :=
  if line.getLast? = some '\r' then line.dropLast else line

def ended : List (List Char) → List (List Char)
  | [] => []
  | [last] => if last.isEmpty then [] else [last]
  | line :: rest => dropReturn line :: ended rest

def physicalLines (cs : List Char) : List (List Char) :=
  ended (Text.split '\n' cs)

def isComment (line : List Char) : Bool :=
  line.head? == some '#' || line.head? == some '!'

def continues (line : List Char) : Bool :=
  (line.reverse.takeWhile (· == '\\')).length % 2 == 1

structure LogicalLine where
  number : Nat
  text : List Char
  deriving DecidableEq, Repr

def join (number : Nat) (waiting : Option LogicalLine) : List (List Char) → List LogicalLine
  | [] => waiting.toList
  | raw :: rest =>
    let line := raw.dropWhile isPad
    if waiting.isNone ∧ (line.isEmpty ∨ isComment line) then join (number + 1) none rest
    else
      let before := waiting.getD ⟨number, []⟩
      if continues line then
        join (number + 1) (some ⟨before.number, before.text ++ line.dropLast⟩) rest
      else ⟨before.number, before.text ++ line⟩ :: join (number + 1) none rest

def logicalLines (cs : List Char) : List LogicalLine :=
  join 1 none (physicalLines cs)

inductive Piece where
  | plain (c : Char)
  | escaped (c : Char)
  | unit (n : Nat)
  deriving DecidableEq, Repr

def escapedChar (c : Char) : Char :=
  if c = 't' then '\t'
  else if c = 'n' then '\n'
  else if c = 'r' then '\r'
  else if c = 'f' then '\x0c'
  else c

def pieces? : List Char → Option (List Piece)
  | [] => some []
  | '\\' :: 'u' :: a :: b :: c :: d :: cs => do
    let n ← Text.unit? a b c d
    return .unit n :: (← pieces? cs)
  | '\\' :: 'u' :: _ => none
  | '\\' :: c :: cs => (pieces? cs).map (.escaped (escapedChar c) :: ·)
  | ['\\'] => some []
  | c :: cs => (pieces? cs).map (.plain c :: ·)

structure Letter where
  char : Char
  isEscaped : Bool
  deriving DecidableEq, Repr

def letters? : List Piece → Option (List Letter)
  | [] => some []
  | .plain c :: ps => (letters? ps).map (⟨c, false⟩ :: ·)
  | .escaped c :: ps => (letters? ps).map (⟨c, true⟩ :: ·)
  | .unit n :: ps =>
    match Text.ofUnit? n, ps with
    | some c, ps => (letters? ps).map (⟨c, true⟩ :: ·)
    | none, .unit m :: rest => do
      let c ← Text.ofPair? n m
      return ⟨c, true⟩ :: (← letters? rest)
    | none, _ => none

namespace Letter

def isPad (l : Letter) : Bool :=
  !l.isEscaped && Properties.isPad l.char

def isAssignment (l : Letter) : Bool :=
  !l.isEscaped && (l.char == '=' || l.char == ':')

end Letter

def dropSeparator (ls : List Letter) : List Letter :=
  match ls.dropWhile Letter.isPad with
  | [] => []
  | l :: rest => (if l.isAssignment then rest else l :: rest).dropWhile Letter.isPad

def text (ls : List Letter) : String :=
  String.ofList (ls.map Letter.char)

def entry? (line : List Char) : Option (String × String) := do
  let ls ← letters? (← pieces? line)
  let (key, rest) := ls.span fun l => !(l.isPad || l.isAssignment)
  return (text key, text (dropSeparator rest))

def entry (l : LogicalLine) : Except PropertiesProblem (String × String) :=
  match entry? l.text with
  | some e => .ok e
  | none => .error ⟨l.number⟩

def parse (source : String) : Except PropertiesProblem (List (String × String)) :=
  (logicalLines source.toList).mapM entry

end Properties

end MessageCatalog
