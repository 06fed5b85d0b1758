import MessageCatalog.Text.Integer

namespace MessageCatalog.Json

inductive Problem where
  | truncated
  | malformed
  | unexpected
  deriving DecidableEq, Repr

def isBlank (c : Char) : Bool :=
  c == ' ' || c == '\n' || c == '\t' || c == '\r'

def skipBlank (cs : List Char) : List Char :=
  cs.dropWhile isBlank

def escape (c : Char) : List Char :=
  if c = '"' then ['\\', '"']
  else if c = '\\' then ['\\', '\\']
  else if c = '\x08' then ['\\', 'b']
  else if c = '\x0c' then ['\\', 'f']
  else if c = '\n' then ['\\', 'n']
  else if c = '\r' then ['\\', 'r']
  else if c = '\t' then ['\\', 't']
  else if c.toNat < 16 then '\\' :: 'u' :: '0' :: '0' :: '0' :: Text.hex c.toNat
  else if c.toNat < 32 then '\\' :: 'u' :: '0' :: '0' :: Text.hex c.toNat
  else [c]

def quoteChars (t : String) : List Char :=
  '"' :: t.toList.flatMap escape ++ ['"']

def quote (t : String) : String :=
  String.ofList (quoteChars t)

def shortEscape? (c : Char) : Option Char :=
  if c = '"' ∨ c = '\\' ∨ c = '/' then some c
  else if c = 'b' then some '\x08'
  else if c = 'f' then some '\x0c'
  else if c = 'n' then some '\n'
  else if c = 'r' then some '\r'
  else if c = 't' then some '\t'
  else none

def hexProblem (cs : List Char) : Problem :=
  if (String.ofList cs).utf8ByteSize < 4 then .truncated else .malformed

def pairProblem : List Char → Problem
  | [] => .truncated
  | ['\\'] => .truncated
  | '\\' :: 'u' :: cs => if cs.length < 4 then hexProblem cs else .malformed
  | _ => .malformed

def readChars : List Char → Except Problem (List Char × List Char)
  | [] => .error .truncated
  | '"' :: cs => .ok ([], cs)
  | '\\' :: 'u' :: a :: b :: c :: d :: cs =>
    match Text.unit? a b c d with
    | none => .error .malformed
    | some n =>
      if Text.isHighSurrogate n then
        match cs with
        | '\\' :: 'u' :: e :: f :: g :: h :: rest =>
          match (Text.unit? e f g h).bind (Text.ofPair? n) with
          | none => .error .malformed
          | some x => (readChars rest).map fun r => (x :: r.1, r.2)
        | _ => .error (pairProblem cs)
      else
        match Text.ofUnit? n with
        | none => .error .malformed
        | some x => (readChars cs).map fun r => (x :: r.1, r.2)
  | '\\' :: 'u' :: cs => .error (hexProblem cs)
  | ['\\'] => .error .truncated
  | '\\' :: c :: cs =>
    match shortEscape? c with
    | none => .error .malformed
    | some x => (readChars cs).map fun r => (x :: r.1, r.2)
  | c :: cs =>
    if c.toNat < 32 then .error .malformed else (readChars cs).map fun r => (c :: r.1, r.2)

def readText (cs : List Char) : Except Problem (String × List Char) :=
  (readChars cs).map fun r => (String.ofList r.1, r.2)

def skipChars : List Char → Except Problem (List Char)
  | [] => .error .truncated
  | '"' :: cs => .ok cs
  | '\\' :: 'u' :: a :: b :: c :: d :: cs =>
    if (Text.unit? a b c d).isNone then .error .malformed else skipChars cs
  | '\\' :: 'u' :: cs => .error (hexProblem cs)
  | ['\\'] => .error .truncated
  | '\\' :: c :: cs => if (shortEscape? c).isNone then .error .malformed else skipChars cs
  | c :: cs => if c.toNat < 32 then .error .malformed else skipChars cs

end MessageCatalog.Json
