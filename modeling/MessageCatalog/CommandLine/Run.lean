import MessageCatalog.Catalog.Registry
import MessageCatalog.CommandLine.Command
import MessageCatalog.CommandLine.Listing
import MessageCatalog.Text.Basic
import MessageCatalog.Binary64.Literal
import MessageCatalog.Value

namespace MessageCatalog.CommandLine

def readScalar (cs : List Char) : Value :=
  if cs = ['n', 'u', 'l', 'l'] then .null
  else
    match Text.int64? cs, (Binary64.read? cs).filter Binary64.isFinite with
    | some n, _ => .integer n
    | none, some x => .double x
    | none, none => .text (String.ofList cs)

def bracketed? : List Char → Option (List Char)
  | '[' :: cs => if cs.getLast? = some ']' then some cs.dropLast else none
  | _ => none

def readArgument (cs : List Char) : Value :=
  match bracketed? cs with
  | none => readScalar cs
  | some inner =>
    if (Text.trim inner).isEmpty then .sequence []
    else .sequence ((Text.split ',' inner).map fun item => readScalar (Text.trim item))

structure Outcome where
  code : Nat
  stdout : String
  stderr : String
  deriving DecidableEq, Repr

namespace Outcome

def success (stdout : String) : Outcome :=
  ⟨0, stdout, ""⟩

def usage (p : UsageProblem) : Outcome :=
  ⟨2, "", "error: " ++ p.message ++ "\n"⟩

def badMessage (stderr : String) : Outcome :=
  ⟨65, "", stderr⟩

def badBundle (path : String) : Outcome :=
  ⟨70, "", "failed to load bundle " ++ path ++ "\n"⟩

end Outcome

def escaped (codes text : String) : String :=
  "\x1b[" ++ codes ++ "m" ++ text ++ "\x1b[39m"

def paint (color : ColorWhen) (codes text : String) : String :=
  if color = .always then escaped codes text else text

def red : String := "31"

def yellow : String := "33"

def load (source : Source) (d : Directory) : Except LoadProblem (Chain × LoadReport) := do
  let config : Config :=
    { defaultLocale := source.defaultLocale
      mode := if source.strictLoad then .strict else .lenient }
  let (registry, report) ← (Registry.empty.create config).loadBundle 0 (.new config) d
  return (registry.chain 0, report)

def evalDocument (l : Locale) (key result : String) : Json.Document :=
  .object [("locale", .text l.text), ("key", .text key), ("result", .text result)]

def problemText (color : ColorWhen) (asJson : Bool) (p : MessageProblem) : String :=
  if asJson then (Json.Document.object [("error", .text p.message)]).pretty 0
  else paint color red "error:" ++ " " ++ p.message

def eval (color : ColorWhen) (chain : Chain) (l : Locale) (key : String) (arguments : List String)
    (isStrict asJson : Bool) : Outcome :=
  let values := arguments.map fun a => readArgument a.toList
  let found := if isStrict then chain.message? l key values else .ok (chain.message l key values)
  match found with
  | .ok text =>
    .success ((if asJson then (evalDocument l key text).pretty 0 else text) ++ "\n")
  | .error p => .badMessage (problemText color asJson p ++ "\n")

def listing (color : ColorWhen) (l : Listing) (asJson : Bool) : Outcome :=
  .success (if asJson then l.document.pretty 0 ++ "\n" else l.text (paint color yellow))

def runCommand (color : ColorWhen) (command : Command) (d : Directory) : Outcome :=
  match load command.source d with
  | .error _ => .badBundle command.source.path
  | .ok (chain, report) =>
    match command with
    | .eval _ l key arguments isStrict asJson => eval color chain l key arguments isStrict asJson
    | .locales source asJson => listing color (.ofReport source.defaultLocale report) asJson

def versionText : String := "tformat 0.1.0\n"

def helpText : String :=
  "Translation bundle tools\n\nUsage: tformat [OPTIONS] <COMMAND>\n\nCommands:\n" ++
    "  eval     Translate a key from a bundle\n" ++
    "  locales  List the locales a bundle loads\n"

def runRequest (directoryAt : String → Directory) : Request → Outcome
  | .run color command => runCommand color command (directoryAt command.source.path)
  | .version => .success versionText
  | .help => .success helpText

def run (environment : Option String) (arguments : List String) (directoryAt : String → Directory) :
    Outcome :=
  match Request.read environment arguments with
  | .error p => .usage p
  | .ok request => runRequest directoryAt request

end MessageCatalog.CommandLine
