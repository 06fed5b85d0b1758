import MessageCatalog.Locale.Basic
import MessageCatalog.Message.Pattern

namespace MessageCatalog

abbrev RawMessages := SortedMap Locale (SortedMap String String)

namespace RawMessages

def texts (raw : RawMessages) (l : Locale) : SortedMap String String :=
  (raw.get? l).getD .empty

def add (raw : RawMessages) (l : Locale) (entries : List (String × String)) : RawMessages :=
  raw.insert l ((raw.texts l).insertAll entries)

end RawMessages

inductive LoadMode where
  | lenient
  | strict
  deriving DecidableEq, Repr

structure PatternFailure where
  locale : Locale
  key : String
  problem : PatternProblem
  deriving DecidableEq

namespace PatternFailure

def message (f : PatternFailure) : String :=
  "invalid pattern for '" ++ f.key ++ "' in " ++ f.locale.text ++ ": " ++ f.problem.message

def warning (f : PatternFailure) : String :=
  "skipped '" ++ f.key ++ "' in " ++ f.locale.text ++ ": " ++ f.problem.message

end PatternFailure

structure Table where
  patterns : SortedMap Locale (SortedMap String MessagePattern)

structure LoadReport where
  keyCounts : List (Locale × Nat)
  skipped : List PatternFailure

def LoadReport.summary (r : LoadReport) : String :=
  " | ".intercalate
    (r.keyCounts.map fun c => c.1.text ++ " (" ++ Text.natText c.2 ++ " keys)")

namespace Table

def empty : Table :=
  ⟨.empty⟩

def compileEntry (mode : LoadMode) (l : Locale)
    (built : SortedMap String MessagePattern × List PatternFailure) (e : String × String) :
    Except PatternFailure (SortedMap String MessagePattern × List PatternFailure) :=
  match MessagePattern.compile e.2 l, mode with
  | .ok p, _ => .ok (built.1.insert e.1 p, built.2)
  | .error problem, .strict => .error ⟨l, e.1, problem⟩
  | .error problem, .lenient => .ok (built.1, built.2 ++ [⟨l, e.1, problem⟩])

/-- A locale without any pattern that can be compiled stays in the table. -/
def compileLocale (mode : LoadMode) (built : Table × List PatternFailure)
    (e : Locale × SortedMap String String) : Except PatternFailure (Table × List PatternFailure) := do
  let (patterns, skipped) ← e.2.entries.foldlM (compileEntry mode e.1) (.empty, built.2)
  return (⟨built.1.patterns.insert e.1 patterns⟩, skipped)

def compile (mode : LoadMode) (raw : RawMessages) :
    Except PatternFailure (Table × List PatternFailure) :=
  raw.entries.foldlM (compileLocale mode) (empty, [])

def locales (t : Table) : List Locale :=
  t.patterns.keys

def isEmpty (t : Table) : Bool :=
  t.patterns.isEmpty

def containsLocale (t : Table) (l : Locale) : Bool :=
  t.patterns.contains l

def get? (t : Table) (l : Locale) (key : String) : Option MessagePattern :=
  (t.patterns.get? l).bind fun patterns => patterns.get? key

def keys (t : Table) (l : Locale) : List String :=
  ((t.patterns.get? l).map SortedMap.keys).getD []

def keyCount (t : Table) (l : Locale) : Nat :=
  (t.keys l).length

def keyCounts (t : Table) : List (Locale × Nat) :=
  t.patterns.entries.map fun e => (e.1, e.2.size)

end Table

end MessageCatalog
