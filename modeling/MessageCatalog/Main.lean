import MessageCatalog.CommandLine.Run

namespace MessageCatalog

def readFile (directory path : String) : IO (Except FileProblem String) := do
  let full := if path.startsWith "/" then path else directory ++ "/" ++ path
  try
    return Directory.decode (← IO.FS.readBinFile full)
  catch
    | .noFileOrDirectory .. => return .error .notFound
    | _ => return .error .isDirectory

def readDirectory (directory : String) : IO Directory := do
  let manifest ← readFile directory Bundle.manifestPath
  let paths :=
    match manifest.toOption.bind fun text => (Manifest.parse text).toOption with
    | some m => m.entries.map ManifestEntry.file
    | none => []
  let texts ← paths.mapM fun path => return (path, ← readFile directory path)
  return fun path =>
    if path = Bundle.manifestPath then manifest
    else (texts.lookup path).getD (.error .notFound)

end MessageCatalog

open MessageCatalog CommandLine

def main (arguments : List String) : IO UInt32 := do
  let environment ← IO.getEnv "TFORMAT_DEFAULT_LOCALE"
  let outcome ←
    match Request.read environment arguments with
    | .error p => pure (Outcome.usage p)
    | .ok (.run color command) =>
      runCommand color command <$> readDirectory command.source.path
    | .ok request => pure (runRequest (fun _ _ => .error .notFound) request)
  IO.print outcome.stdout
  IO.eprint outcome.stderr
  return outcome.code.toUInt32
