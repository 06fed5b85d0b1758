import MessageCatalog.Json.Skip
import MessageCatalog.Locale.Basic

namespace MessageCatalog

structure ManifestEntry where
  language : String
  country : Option String
  file : String
  version : Option String
  deriving DecidableEq, Repr

structure Manifest where
  entries : List ManifestEntry
  deriving DecidableEq, Repr

def ManifestEntry.locale (e : ManifestEntry) : Except LocaleError Locale :=
  Locale.make e.language e.country

namespace Manifest

open Json

def writeMember (name value : String) : List Char :=
  quoteChars name ++ ':' :: quoteChars value

def members (e : ManifestEntry) : List (String × String) :=
  [("language", e.language)] ++ (e.country.map ("country", ·)).toList ++ [("file", e.file)] ++
    (e.version.map ("version", ·)).toList

def writeEntry (e : ManifestEntry) : List Char :=
  '\x7b' :: [','].intercalate ((members e).map fun m => writeMember m.1 m.2) ++ ['\x7d']

def write (m : Manifest) : String :=
  String.ofList ('[' :: [','].intercalate (m.entries.map writeEntry) ++ [']'])

abbrev Reader (α : Type) := List Char → Except Problem (α × List Char)

def readString : Reader String := fun cs =>
  match skipBlank cs with
  | '"' :: rest => readText rest
  | rest => .error (shapeProblem rest)

def readOptional : Reader (Option String) := fun cs =>
  match skipBlank cs with
  | 'n' :: rest => (word ['u', 'l', 'l'] rest).map fun rest => (none, rest)
  | rest => (readString rest).map fun r => (some r.1, r.2)

def element? (isFirst : Bool) (cs : List Char) : Except Problem (Option (List Char)) :=
  match skipBlank cs with
  | [] => .error .truncated
  | ']' :: _ => .ok none
  | c :: rest =>
    if isFirst then .ok (some (c :: rest))
    else if c = ',' then
      match skipBlank rest with
      | [] => .error .truncated
      | ']' :: _ => .error .malformed
      | rest => .ok (some rest)
    else .error .malformed

def required {α : Type} (read : Reader α) (isFirst : Bool) : Reader α := fun cs => do
  match ← element? isFirst cs with
  | some cs => read cs
  | none => .error .unexpected

def optional : Reader (Option String) := fun cs => do
  match ← element? false cs with
  | some cs => readOptional cs
  | none => return (none, cs)

def closeList (cs : List Char) : Except Problem (List Char) :=
  match skipBlank cs with
  | [] => .error .truncated
  | ']' :: rest => .ok rest
  | _ => .error .malformed

def readList : Reader ManifestEntry := fun cs => do
  let (language, cs) ← required readString true cs
  let (country, cs) ← optional cs
  let (file, cs) ← required readString false cs
  let (version, cs) ← optional cs
  return (⟨language, country, file, version⟩, ← closeList cs)

inductive Member where
  | language
  | country
  | file
  | version

def member? (name : String) : Option Member :=
  [("language", Member.language), ("country", .country), ("file", .file),
    ("version", .version)].lookup name

structure Members where
  language : Option String := none
  country : Option (Option String) := none
  file : Option String := none
  version : Option (Option String) := none

namespace Members

def has (m : Members) : Member → Bool
  | .language => m.language.isSome
  | .country => m.country.isSome
  | .file => m.file.isSome
  | .version => m.version.isSome

def read (m : Members) : Member → Reader Members
  | .language, cs => (readString cs).map fun r => ({ m with language := some r.1 }, r.2)
  | .country, cs => (readOptional cs).map fun r => ({ m with country := some r.1 }, r.2)
  | .file, cs => (readString cs).map fun r => ({ m with file := some r.1 }, r.2)
  | .version, cs => (readOptional cs).map fun r => ({ m with version := some r.1 }, r.2)

def entry (m : Members) : Except Problem ManifestEntry :=
  match m.language, m.file with
  | some language, some file => .ok ⟨language, m.country.join, file, m.version.join⟩
  | _, _ => .error .unexpected

end Members

def colon (cs : List Char) : Except Problem (List Char) :=
  match skipBlank cs with
  | [] => .error .truncated
  | ':' :: rest => .ok rest
  | _ => .error .malformed

def readMember (m : Members) : Reader Members := fun cs => do
  let (name, cs) ← readText cs
  match member? name with
  | none => return (m, ← skip (← colon cs))
  | some known => if m.has known then .error .unexpected else m.read known (← colon cs)

def key? (isFirst : Bool) (cs : List Char) : Except Problem (Option (List Char)) :=
  match skipBlank cs with
  | [] => .error .truncated
  | '\x7d' :: _ => .ok none
  | c :: rest =>
    if isFirst then if c = '"' then .ok (some rest) else .error .malformed
    else if c = ',' then
      match skipBlank rest with
      | [] => .error .truncated
      | '"' :: rest => .ok (some rest)
      | _ => .error .malformed
    else .error .malformed

def readMembers : Nat → Bool → Members → Reader ManifestEntry
  -- a member takes a character at least, so fuel for each of them suffices
  | 0, _, _, _ => .error .truncated
  | fuel + 1, isFirst, m, cs => do
    match ← key? isFirst cs with
    | none => return (← m.entry, (skipBlank cs).drop 1)
    | some cs =>
      let (m, cs) ← readMember m cs
      readMembers fuel false m cs

def readEntry : Reader ManifestEntry := fun cs =>
  match skipBlank cs with
  | '[' :: rest => readList rest
  | '\x7b' :: rest => readMembers (rest.length + 1) true {} rest
  | rest => .error (shapeProblem rest)

def readEntries : Nat → Bool → Reader (List ManifestEntry)
  | 0, _, _ => .error .truncated
  | fuel + 1, isFirst, cs => do
    match ← element? isFirst cs with
    | none => return ([], (skipBlank cs).drop 1)
    | some cs =>
      let (e, cs) ← readEntry cs
      let (es, cs) ← readEntries fuel false cs
      return (e :: es, cs)

def parse (text : String) : Except Problem Manifest :=
  match skipBlank text.toList with
  | '[' :: rest => do
    let (entries, rest) ← readEntries (rest.length + 1) true rest
    if (skipBlank rest).isEmpty then return ⟨entries⟩ else .error .malformed
  | rest => .error (shapeProblem rest)

end Manifest

end MessageCatalog
