import MessageCatalog.Json.Text
import MessageCatalog.Text.Integer

namespace MessageCatalog.Json

inductive Document where
  | text (t : String)
  | number (n : Nat)
  | list (elements : List Document)
  | object (members : List (String × Document))

namespace Document

def indent (level : Nat) : String :=
  String.ofList ('\n' :: List.replicate (2 * level) ' ')

def block (opening closing : String) (level : Nat) (lines : List String) : String :=
  if lines.isEmpty then opening ++ closing
  else opening ++ ",".intercalate (lines.map (indent (level + 1) ++ ·)) ++ indent level ++ closing

mutual

def pretty (level : Nat) : Document → String
  | text t => quote t
  | number n => Text.natText n
  | list elements => block "[" "]" level (prettyElements (level + 1) elements)
  | object members => block "\x7b" "\x7d" level (prettyMembers (level + 1) members)

def prettyElements (level : Nat) : List Document → List String
  | [] => []
  | d :: ds => pretty level d :: prettyElements level ds

def prettyMembers (level : Nat) : List (String × Document) → List String
  | [] => []
  | (name, d) :: ms => (quote name ++ ": " ++ pretty level d) :: prettyMembers level ms

end

end Document

end MessageCatalog.Json
