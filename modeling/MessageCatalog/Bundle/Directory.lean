import MessageCatalog.Text.Basic

namespace MessageCatalog

inductive Step where
  | stay
  | up
  | enter (name : String)
  deriving DecidableEq, Repr

def Step.ofName (name : List Char) : Step :=
  if name.isEmpty ∨ name = ['.'] then .stay
  else if name = ['.', '.'] then .up
  else .enter (String.ofList name)

namespace Path

def parts (path : String) : List (List Char) :=
  Text.split '/' path.toList

def steps (path : String) : List Step :=
  (parts path).map Step.ofName

def names (path : String) : List String :=
  (steps path).filterMap fun
    | .enter name => some name
    | _ => none

def isAbsolute (path : String) : Bool :=
  path.toList.head? == some '/'

def stays (name : List Char) : Bool :=
  Step.ofName name = .stay

def trimmed (path : String) : String :=
  if isAbsolute path then path
  else
    let kept := ((parts path).dropWhile stays).reverse.dropWhile stays |>.reverse
    String.ofList (['/'].intercalate kept)

end Path

inductive FileProblem where
  | notFound
  | notText
  | isDirectory
  | notDirectory
  | longName
  | nulInPath
  deriving DecidableEq, Repr

abbrev Directory := String → Except FileProblem String

structure File where
  path : List String
  bytes : ByteArray

inductive Node where
  | directory
  | file (bytes : ByteArray)

inductive Location where
  | inside (names : List String)
  | outside
  deriving DecidableEq, Repr

def Location.above : Location → Location
  | inside names => if names.isEmpty then outside else inside names.dropLast
  | outside => outside

namespace Directory

def decode (bytes : ByteArray) : Except FileProblem String :=
  match String.fromUTF8? bytes with
  | some text => .ok text
  | none => .error .notText

def node? (files : List File) (names : List String) : Option Node :=
  if files.any fun f => names.isPrefixOf f.path && names ≠ f.path then some .directory
  -- of files of one path the last counts
  else (files.reverse.find? fun f => f.path = names).map fun f => .file f.bytes

def longestName : Nat := 255

def walk (files : List File) : Location → List Step → Except FileProblem String
  | _, [] => .error .isDirectory
  | l, .stay :: rest => walk files l rest
  | l, .up :: rest => walk files l.above rest
  | l, .enter name :: rest =>
    if longestName < name.utf8ByteSize then .error .longName
    else
      match l with
      | .outside => .error .notFound
      | .inside names =>
        match node? files (names ++ [name]) with
        | none => .error .notFound
        | some .directory => walk files (.inside (names ++ [name])) rest
        | some (.file bytes) => if rest.isEmpty then decode bytes else .error .notDirectory

def ofFiles (files : List File) : Directory := fun path =>
  if path.toList.contains '\x00' then .error .nulInPath
  else walk files (if Path.isAbsolute path then .outside else .inside []) (Path.steps path)

end Directory

end MessageCatalog
