import MessageCatalog.Catalog.Registry

/-!
Sessions: catalogs and kept tables under names. Requests are performed one after another; one that fails
leaves the session as it was.
-/

namespace MessageCatalog

structure Session where
  registry : Registry
  handles : SortedMap String Nat
  snapshots : SortedMap String Table

inductive SessionProblem where
  | noCatalog
  | noSnapshot
  | tooDeep (problem : ChainProblem)
  | load (problem : LoadProblem)

inductive Operation where
  | create (name : String) (config : Config)
  | createChild (name parent : String) (config : Config)
  | createIdentity (name : String)
  | load (name : String) (raw : RawMessages)
  | loadBundle (name : String) (directory : Directory)
  | snapshot (name kept : String)

inductive Query where
  | message (name : String) (locale : Locale) (key : String) (arguments : List Value)
  | strictMessage (name : String) (locale : Locale) (key : String) (arguments : List Value)
  | has (name : String) (locale : Locale) (key : String)
  | locales (name : String)

inductive Answer where
  | message (text : String)
  | strictMessage (outcome : Except MessageProblem String)
  | has (found : Bool)
  | locales (loaded : List Locale)

namespace Session

inductive Request where
  | change (operation : Operation)
  | ask (query : Query)

inductive Reply where
  | done
  | loaded (report : LoadReport)
  | answered (answer : Answer)

def empty : Session :=
  ⟨.empty, .empty, .empty⟩

def handle (s : Session) (name : String) : Except SessionProblem Nat :=
  match s.handles.get? name with
  | some h => .ok h
  | none => .error .noCatalog

def chain (s : Session) (name : String) : Except SessionProblem Chain :=
  (s.handle name).map s.registry.chain

def catalog (s : Session) (name : String) : Except SessionProblem Catalog := do
  match s.registry.catalog? (← s.handle name) with
  | some m => return m
  | none => .error .noCatalog

def kept (s : Session) (name : String) : Except SessionProblem Table :=
  match s.snapshots.get? name with
  | some t => .ok t
  | none => .error .noSnapshot

def named (s : Session) (name : String) (registry : Registry) : Session :=
  { s with registry := registry, handles := s.handles.insert name s.registry.next }

def apply (s : Session) : Operation → Except SessionProblem (Session × Option LoadReport)
  | .create name config => .ok (s.named name (s.registry.create config), none)
  | .createIdentity name => .ok (s.named name s.registry.createIdentity, none)
  | .createChild name parent config => do
    let registry ← (s.registry.createChild config (← s.handle parent)).mapError .tooDeep
    return (s.named name registry, none)
  | .load name raw => do
    let loaded := s.registry.load (← s.handle name) (← s.catalog name) raw
    let (registry, report) ← loaded.mapError .load
    return ({ s with registry := registry }, some report)
  | .loadBundle name directory => do
    let loaded := s.registry.loadBundle (← s.handle name) (← s.catalog name) directory
    let (registry, report) ← loaded.mapError .load
    return ({ s with registry := registry }, some report)
  | .snapshot name kept => do
    let m ← s.catalog name
    return ({ s with snapshots := s.snapshots.insert kept m.table }, none)

def ask (s : Session) : Query → Except SessionProblem Answer
  | .message name l key arguments => do
    return .message ((← s.chain name).message l key arguments)
  | .strictMessage name l key arguments => do
    return .strictMessage ((← s.chain name).message? l key arguments)
  | .has name l key => do
    return .has ((← s.catalog name).has l key)
  | .locales name => do
    return .locales (← s.catalog name).table.locales

def step (s : Session) : Request → Session × Except SessionProblem Reply
  | .change operation =>
    match s.apply operation with
    | .ok (changed, report) => (changed, .ok ((report.map .loaded).getD .done))
    | .error problem => (s, .error problem)
  | .ask query => (s, (s.ask query).map .answered)

def runFrom (s : Session) (requests : List Request) : Session :=
  requests.foldl (fun s q => (s.step q).1) s

def run (requests : List Request) : Session :=
  runFrom empty requests

end Session

end MessageCatalog
