import MessageCatalog.Catalog.Basic

/-!
Chains of catalogs. A chain answers a key from its first catalog that has the key for the locale or for that
catalog's default locale; an identity has every key and answers with it.
-/

namespace MessageCatalog

inductive MessageProblem where
  | missing (key : String) (locale : Locale) (suggestions : List String)
  | format (key : String) (locale : Locale) (problem : FormatProblem)
  deriving DecidableEq

def MessageProblem.message : MessageProblem → String
  | missing key locale suggestions =>
    "missing translation '" ++ key ++ "' for " ++ locale.text ++
      if suggestions.isEmpty then ""
      else " (did you mean: " ++ ", ".intercalate suggestions ++ "?)"
  | format key locale problem =>
    "failed to format '" ++ key ++ "' for " ++ locale.text ++ ": " ++ problem.message

abbrev Chain := List Catalog

inductive Lookup where
  | missing
  | identity
  | found (owner : Chain) (locale : Locale) (pattern : MessagePattern)

namespace Chain

def lookup (l : Locale) (key : String) : Chain → Lookup
  | [] => .missing
  | m :: ancestors =>
    if m.isIdentity then .identity
    else
      match m.find? l key with
      | some (c, p) => .found (m :: ancestors) c p
      | none => lookup l key ancestors

def answer (l : Locale) (key : String) (chain : Chain) (arguments : Chain → List Value) :
    Except MessageProblem String :=
  match lookup l key chain with
  | .identity => .ok key
  | .found owner c p => (p.write (some (arguments owner))).mapError (.format key c)
  | .missing =>
    .error (.missing key l ((chain.getLast?.map fun m => m.suggestions l key).getD []))

def orKey (key : String) (r : Except MessageProblem String) : String :=
  r.toOption.getD key

mutual

/-- The value with its deferred parts replaced, for an asked locale and the owner of a pattern. What a
deferred value stands for is not resolved again. -/
def resolve (l : Locale) (owner : Chain) : Value → Value
  | .deferred _ target => resolveTarget l owner target
  | .sequence items => .sequence (resolveAll l owner items)
  | v => v

def resolveTarget (l : Locale) (owner : Chain) : Deferred → Value
  | .message key arguments =>
    .text (orKey key (answer l key owner fun o =>
      if Value.anyPending arguments then resolveAll l o arguments else arguments))
  | .localeText => .text l.text
  | .value v => v

def resolveAll (l : Locale) (owner : Chain) : List Value → List Value
  | [] => []
  | v :: vs => resolve l owner v :: resolveAll l owner vs

end

def resolveArguments (l : Locale) (arguments : List Value) (owner : Chain) : List Value :=
  if Value.anyPending arguments then resolveAll l owner arguments else arguments

def message? (chain : Chain) (l : Locale) (key : String) (arguments : List Value) :
    Except MessageProblem String :=
  answer l key chain (resolveArguments l arguments)

def message (chain : Chain) (l : Locale) (key : String) (arguments : List Value) : String :=
  orKey key (chain.message? l key arguments)

end Chain

end MessageCatalog
