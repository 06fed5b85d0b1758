import MessageCatalog.Bundle.Directory
import MessageCatalog.Bundle.Manifest
import MessageCatalog.Bundle.Properties
import MessageCatalog.Catalog.Table

namespace MessageCatalog

inductive BundleProblem where
  | unreadable (path : String) (problem : FileProblem)
  | malformedManifest (path : String) (problem : Json.Problem)
  | unknownLocale (path : String) (problem : LocaleError)
  | malformedEntry (path : String) (problem : PropertiesProblem)

namespace Bundle

def manifestPath : String := "language.json"

def manifest (d : Directory) : Except BundleProblem Manifest := do
  let text ← (d manifestPath).mapError (.unreadable manifestPath)
  (Manifest.parse text).mapError (.malformedManifest manifestPath)

def readEntry (d : Directory) (e : ManifestEntry) :
    Except BundleProblem (Locale × List (String × String)) := do
  let locale ← e.locale.mapError (.unknownLocale manifestPath)
  let path := Path.trimmed e.file
  let text ← (d e.file).mapError (.unreadable path)
  let entries ← (Properties.parse text).mapError (.malformedEntry path)
  return (locale, entries)

def load (d : Directory) : Except BundleProblem RawMessages := do
  let read ← (← manifest d).entries.mapM (readEntry d)
  return read.foldl (fun raw r => raw.add r.1 r.2) SortedMap.empty

end Bundle

end MessageCatalog
