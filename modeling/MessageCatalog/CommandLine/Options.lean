import MessageCatalog.Locale.Basic

namespace MessageCatalog.CommandLine

inductive OptionName where
  | color
  | verbose
  | help
  | version
  | bundle
  | defaultLocale
  | strictLoad
  | locale
  | key
  | argument
  | strict
  | json
  deriving DecidableEq, Repr

namespace OptionName

def long : OptionName → String
  | color => "color"
  | verbose => "verbose"
  | help => "help"
  | version => "version"
  | bundle => "bundle"
  | defaultLocale => "default-locale"
  | strictLoad => "strict-load"
  | locale => "locale"
  | key => "key"
  | argument => "arg"
  | strict => "strict"
  | json => "json"

def letter? : OptionName → Option Char
  | verbose => some 'v'
  | help => some 'h'
  | version => some 'V'
  | argument => some 'a'
  | _ => none

def takesValue : OptionName → Bool
  | color | bundle | defaultLocale | locale | key | argument => true
  | _ => false

end OptionName

inductive UsageProblem where
  | unexpected (argument : String)
  | missingValue (name : OptionName)
  | unneededValue (name : OptionName)
  | repeated (name : OptionName)
  | invalidValue (name : OptionName) (value : String)
  | missingOption (name : OptionName)
  | missingCommand
  deriving DecidableEq, Repr

namespace UsageProblem

def message : UsageProblem → String
  | unexpected argument => "unexpected argument '" ++ argument ++ "' found"
  | missingValue name => "a value is required for '--" ++ name.long ++ "' but none was supplied"
  | unneededValue name => "unexpected value for '--" ++ name.long ++ "' found"
  | repeated name => "the argument '--" ++ name.long ++ "' cannot be used multiple times"
  | invalidValue name value => "invalid value '" ++ value ++ "' for '--" ++ name.long ++ "'"
  | missingOption name => "the required argument '--" ++ name.long ++ "' was not provided"
  | missingCommand => "a command is required"

end UsageProblem

inductive ColorWhen where
  | auto
  | always
  | never
  deriving DecidableEq, Repr

def ColorWhen.read? (value : String) : Option ColorWhen :=
  [("auto", auto), ("always", always), ("never", never)].lookup value

structure Given where
  color : Option ColorWhen := none
  bundle : Option String := none
  defaultLocale : Option Locale := none
  locale : Option Locale := none
  key : Option String := none
  arguments : List String := []
  flags : List OptionName := []

namespace Given

def setColor (g : Given) (value : String) : Except UsageProblem Given :=
  match g.color, ColorWhen.read? value with
  | some _, _ => .error (.repeated .color)
  | none, none => .error (.invalidValue .color value)
  | none, some color => .ok { g with color := some color }

def setBundle (g : Given) (value : String) : Except UsageProblem Given :=
  if g.bundle.isSome then .error (.repeated .bundle)
  else if value.isEmpty then .error (.invalidValue .bundle value)
  else .ok { g with bundle := some value }

def setKey (g : Given) (value : String) : Except UsageProblem Given :=
  if g.key.isSome then .error (.repeated .key) else .ok { g with key := some value }

def readLocale (name : OptionName) (old : Option Locale) (value : String) :
    Except UsageProblem Locale :=
  if old.isSome then .error (.repeated name)
  else (Locale.parse value).mapError fun _ => .invalidValue name value

def setValue (g : Given) (name : OptionName) (value : String) : Except UsageProblem Given :=
  match name with
  | .color => g.setColor value
  | .bundle => g.setBundle value
  | .key => g.setKey value
  | .argument => .ok { g with arguments := g.arguments ++ [value] }
  | .locale => (readLocale name g.locale value).map fun l => { g with locale := some l }
  | .defaultLocale =>
    (readLocale name g.defaultLocale value).map fun l => { g with defaultLocale := some l }
  | _ => .error (.unneededValue name)

def setFlag (g : Given) (name : OptionName) : Except UsageProblem Given :=
  if g.flags.contains name then .error (.repeated name)
  else .ok { g with flags := name :: g.flags }

end Given

inductive Scanned where
  | finished (given : Given)
  | word (given : Given) (argument : String) (rest : List String)
  | asked (name : OptionName)

def isOption (argument : String) : Bool :=
  match argument.toList with
  | '-' :: _ :: _ => true
  | _ => false

inductive Letters where
  | set (given : Given)
  | asked (name : OptionName)
  | waiting (given : Given) (name : OptionName)

def isAsking (name : OptionName) : Bool :=
  name = .help || name = .version

def letters (allowed : List OptionName) (given : Given) : List Char → Except UsageProblem Letters
  | [] => .ok (.set given)
  | c :: cs =>
    match allowed.find? fun name => name.letter? = some c with
    | none => .error (.unexpected (String.ofList ['-', c]))
    | some name =>
      if name.takesValue then
        match cs with
        | [] => .ok (.waiting given name)
        | '=' :: value => (given.setValue name (String.ofList value)).map .set
        | value => (given.setValue name (String.ofList value)).map .set
      else if isAsking name then .ok (.asked name)
      else do letters allowed (← given.setFlag name) cs

def longParts (cs : List Char) : String × Option String :=
  match cs.span (· != '=') with
  | (name, []) => (String.ofList name, none)
  | (name, _ :: value) => (String.ofList name, some (String.ofList value))

def long (allowed : List OptionName) (given : Given) (cs : List Char) : Except UsageProblem Letters :=
  let (spelled, attached) := longParts cs
  match allowed.find? fun name => name.long = spelled, attached with
  | none, _ => .error (.unexpected (String.ofList ('-' :: '-' :: cs)))
  | some name, some value =>
    if name.takesValue then (given.setValue name value).map .set else .error (.unneededValue name)
  | some name, none =>
    if name.takesValue then .ok (.waiting given name)
    else if isAsking name then .ok (.asked name)
    else (given.setFlag name).map .set

def scan (allowed : List OptionName) (given : Given) :
    List String → Except UsageProblem Scanned
  | [] => .ok (.finished given)
  | argument :: rest =>
    let next (r : Except UsageProblem Letters) : Except UsageProblem Scanned := do
      match ← r with
      | .set given => scan allowed given rest
      | .asked name => return .asked name
      | .waiting given name =>
        match rest with
        | [] => .error (.missingValue name)
        | value :: later =>
          if isOption value then .error (.missingValue name)
          else scan allowed (← given.setValue name value) later
    match argument.toList with
    | ['-', '-'] =>
      match rest with
      | [] => .ok (.finished given)
      | word :: _ => .error (.unexpected word)
    | '-' :: '-' :: cs => next (long allowed given cs)
    | '-' :: c :: cs => next (letters allowed given (c :: cs))
    | _ => .ok (.word given argument rest)

end MessageCatalog.CommandLine
