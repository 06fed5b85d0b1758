import MessageCatalog.CommandLine.Options

namespace MessageCatalog.CommandLine

structure Source where
  path : String
  defaultLocale : Locale
  strictLoad : Bool

inductive Command where
  | eval (source : Source) (locale : Locale) (key : String) (arguments : List String)
    (isStrict asJson : Bool)
  | locales (source : Source) (asJson : Bool)

namespace Command

def source : Command → Source
  | eval source _ _ _ _ _ => source
  | locales source _ => source

end Command

inductive Request where
  | run (color : ColorWhen) (command : Command)
  | version
  | help

namespace Request

def everywhere : List OptionName :=
  [.color, .verbose, .help]

def sourceOptions : List OptionName :=
  [.bundle, .defaultLocale, .strictLoad]

def evalOptions : List OptionName :=
  everywhere ++ sourceOptions ++ [.locale, .key, .argument, .strict, .json]

def localesOptions : List OptionName :=
  everywhere ++ sourceOptions ++ [.json]

def need {α : Type} (name : OptionName) : Option α → Except UsageProblem α
  | some a => .ok a
  | none => .error (.missingOption name)

def defaultLocale (environment : Option String) (given : Given) : Except UsageProblem Locale :=
  match given.defaultLocale, environment with
  | some l, _ => .ok l
  | none, some value => Given.readLocale .defaultLocale none value
  | none, none => .ok .germany

def readSource (environment : Option String) (given : Given) : Except UsageProblem Source := do
  let defaultLocale ← defaultLocale environment given
  let path ← need .bundle given.bundle
  return ⟨path, defaultLocale, given.flags.contains .strictLoad⟩

def readEval (environment : Option String) (given : Given) : Except UsageProblem Command := do
  let source ← readSource environment given
  let locale ← need .locale given.locale
  let key ← need .key given.key
  return .eval source locale key given.arguments (given.flags.contains .strict)
    (given.flags.contains .json)

def readLocales (environment : Option String) (given : Given) : Except UsageProblem Command := do
  let source ← readSource environment given
  return .locales source (given.flags.contains .json)

def readCommand (color : Option ColorWhen) (allowed : List OptionName)
    (read : Given → Except UsageProblem Command) (arguments : List String) :
    Except UsageProblem Request := do
  match ← scan allowed {} arguments with
  | .finished given => return .run ((given.color.or color).getD .auto) (← read given)
  | .asked _ => return .help
  | .word _ word _ => .error (.unexpected word)

def readHelp : List String → Except UsageProblem Request
  | [] | ["eval"] | ["locales"] | ["help"] => .ok .help
  | word :: _ => .error (.unexpected word)

def read (environment : Option String) (arguments : List String) : Except UsageProblem Request := do
  match ← scan (everywhere ++ [.version]) {} arguments with
  | .finished _ => .error .missingCommand
  | .asked name => return if name = .version then .version else .help
  | .word given word rest =>
    match word with
    | "eval" => readCommand given.color evalOptions (readEval environment) rest
    | "locales" => readCommand given.color localesOptions (readLocales environment) rest
    | "help" => readHelp rest
    | _ => .error (.unexpected word)

end Request

end MessageCatalog.CommandLine
