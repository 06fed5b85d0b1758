import MessageCatalog.Catalog.Table

namespace MessageCatalog

/-- The rest of a row of edit distances. The row above belongs to one character less, `diagonal` is its
entry before, and `left` the entry before of this row. -/
def nextRow (c : Char) : List Char → List Nat → Nat → Nat → List Nat
  | d :: ds, up :: row, diagonal, left =>
    let n := min (min up left + 1) (if c = d then diagonal else diagonal + 1)
    n :: nextRow c ds row up n
  | _, _, _, _ => []

def stepRow (target : List Char) (row : List Nat) (c : Char) : List Nat :=
  match row with
  | [] => []
  | diagonal :: rest => (diagonal + 1) :: nextRow c target rest diagonal (diagonal + 1)

def editDistance (a b : List Char) : Nat :=
  ((a.foldl (stepRow b) (List.range (b.length + 1))).getLast?).getD 0

namespace Suggestion

def mostEdits (key : String) : Nat :=
  if key.utf8ByteSize ≤ 3 then 1 else 2

def atDistance (key : String) (candidates : List String) (n : Nat) : List String :=
  candidates.filter fun s => editDistance key.toList s.toList = n

def forKey (key : String) (candidates : List String) : List String :=
  ((List.range (mostEdits key)).flatMap fun n => atDistance key candidates (n + 1)).take 3

end Suggestion

abbrev LocaleSet := SortedMap Locale Unit

structure Config where
  defaultLocale : Locale := .germany
  /-- The locales that are looked up as such; without them, those of the table. -/
  accepted : Option LocaleSet := none
  mode : LoadMode := .lenient
  maxDepth : Nat := 16

structure Catalog where
  isIdentity : Bool
  config : Config
  table : Table

namespace Catalog

def new (config : Config) : Catalog :=
  ⟨false, config, .empty⟩

def identity : Catalog :=
  ⟨true, {}, .empty⟩

def accepts (m : Catalog) (l : Locale) : Bool :=
  match m.config.accepted with
  | some accepted => accepted.contains l
  | none => m.table.containsLocale l

/-- The pattern of a key, and the locale under which it stands. A locale that is not accepted is read as the
default locale; one that lacks the key falls back to it. -/
def find? (m : Catalog) (l : Locale) (key : String) : Option (Locale × MessagePattern) :=
  let effective := if m.accepts l then l else m.config.defaultLocale
  match m.table.get? effective key with
  | some p => some (effective, p)
  | none =>
    if effective = m.config.defaultLocale then none
    else (m.table.get? m.config.defaultLocale key).map fun p => (m.config.defaultLocale, p)

def has (m : Catalog) (l : Locale) (key : String) : Bool :=
  (m.find? l key).isSome

def suggestions (m : Catalog) (l : Locale) (key : String) : List String :=
  let searched := if m.table.containsLocale l then l else m.config.defaultLocale
  Suggestion.forKey key (m.table.keys searched)

end Catalog

end MessageCatalog
