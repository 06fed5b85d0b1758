import MessageCatalog.Binary64.Literal
import MessageCatalog.Text.Basic

/-!
Choices: labels with limits in ascending order, of which a number takes the last one it reaches, or the
first.
-/

namespace MessageCatalog

inductive ChoiceProblem where
  | missingRelation (entry : String)
  | invalidLimit (text : String)
  | notAscending
  deriving DecidableEq, Repr

def ChoiceProblem.message : ChoiceProblem → String
  | missingRelation entry => "missing relation in '" ++ entry ++ "'"
  | invalidLimit text => "invalid limit '" ++ text ++ "'"
  | notAscending => "limits must be in ascending order"

inductive LimitRelation where
  | atLeast
  | above
  deriving DecidableEq, Repr

structure ChoiceEntry where
  limit : Binary64
  relation : LimitRelation
  label : String
  deriving DecidableEq

structure Choice where
  entries : List ChoiceEntry
  deriving DecidableEq

namespace ChoiceEntry

def least (e : ChoiceEntry) : Binary64 :=
  match e.relation with
  | .atLeast => e.limit
  | .above => e.limit.next

def relation? (c : Char) : Option LimitRelation :=
  if c = '#' ∨ c = '≤' then some .atLeast else if c = '<' then some .above else none

def limit? (cs : List Char) : Option Binary64 :=
  if cs = ['∞'] ∨ cs = ['+', '∞'] then some (.infinity false)
  else if cs = ['-', '∞'] then some (.infinity true)
  else (Binary64.read? cs).filter fun x => !x.isNaN

def parse (cs : List Char) : Except ChoiceProblem ChoiceEntry :=
  let (before, rest) := cs.span fun c => (relation? c).isNone
  match rest with
  | [] => .error (.missingRelation (String.ofList cs))
  | c :: label =>
    let text := Text.trim before
    match limit? text, relation? c with
    | some limit, some relation => .ok ⟨limit, relation, String.ofList label⟩
    | _, _ => .error (.invalidLimit (String.ofList text))

end ChoiceEntry

namespace Choice

def parseEntries (previous : Option ChoiceEntry) :
    List (List Char) → Except ChoiceProblem (List ChoiceEntry)
  | [] => .ok []
  | cs :: rest => do
    let entry ← ChoiceEntry.parse cs
    if previous.any fun p => entry.least.le p.least then .error .notAscending
    else
      let later ← parseEntries (some entry) rest
      return entry :: later

def parse (pattern : String) : Except ChoiceProblem Choice :=
  (parseEntries none (Text.split '|' pattern.toList)).map Choice.mk

def select (c : Choice) (x : Binary64) : String :=
  let reached := c.entries.takeWhile fun e => e.least.le x
  ((reached.getLast?.or c.entries.head?).map ChoiceEntry.label).getD ""

end Choice

end MessageCatalog
