namespace MessageCatalog.Text

def isBlank (c : Char) : Bool :=
  let n := c.toNat
  (0x09 ≤ n && n ≤ 0x0D) || n == 0x20 || n == 0x85 || n == 0xA0 || n == 0x1680 ||
    (0x2000 ≤ n && n ≤ 0x200A) || n == 0x2028 || n == 0x2029 || n == 0x202F || n == 0x205F ||
    n == 0x3000

def trimStart (cs : List Char) : List Char :=
  cs.dropWhile isBlank

def trimEnd (cs : List Char) : List Char :=
  (cs.reverse.dropWhile isBlank).reverse

def trim (cs : List Char) : List Char :=
  trimEnd (trimStart cs)

def split (separator : Char) : List Char → List (List Char)
  | [] => [[]]
  | c :: cs =>
    if c = separator then [] :: split separator cs
    else
      match split separator cs with
      | [] => [[c]]
      | part :: parts => (c :: part) :: parts

/-- Lowers ASCII letters. Another character lowers to an ASCII letter only if it is the Kelvin sign, and
no keyword is spelled with a k. -/
def lower (cs : List Char) : List Char :=
  cs.map Char.toLower

def keyword? {α : Type} (keywords : List (String × α)) (text : List Char) : Option α :=
  let spelled (cs : List Char) := keywords.find? fun k => k.1.toList == cs
  ((spelled text).or (spelled (lower (trim text)))).map (·.2)

inductive Mark (α : Type) where
  | char (c : Char)
  | item (a : α)
  deriving DecidableEq, Repr

inductive Run (α : Type) where
  | text (t : String)
  | item (a : α)
  deriving DecidableEq, Repr

namespace Run

def close {α : Type} (waiting : List Char) (rest : List (Run α)) : List (Run α) :=
  if waiting.isEmpty then rest else .text (String.ofList waiting.reverse) :: rest

def gather {α : Type} (waiting : List Char) : List (Mark α) → List (Run α)
  | [] => close waiting []
  | .char c :: ms => gather (c :: waiting) ms
  | .item a :: ms => close waiting (.item a :: gather [] ms)

def ofMarks {α : Type} (ms : List (Mark α)) : List (Run α) :=
  gather [] ms

def items {α : Type} : List (Run α) → List α
  | [] => []
  | .text _ :: rest => items rest
  | .item a :: rest => a :: items rest

end Run

end MessageCatalog.Text
