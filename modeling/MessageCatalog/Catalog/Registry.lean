import MessageCatalog.Bundle.Load
import MessageCatalog.Catalog.Chain

namespace MessageCatalog

structure ChainProblem where
  depth : Nat
  most : Nat
  deriving DecidableEq, Repr

def ChainProblem.message (p : ChainProblem) : String :=
  "manager chain depth " ++ Text.natText p.depth ++ " exceeds the limit of " ++ Text.natText p.most

inductive LoadProblem where
  | pattern (failure : PatternFailure)
  | bundle (problem : BundleProblem)

structure Entry where
  catalog : Catalog
  parent : Option Nat

structure Registry where
  entries : List Entry

namespace Registry

def empty : Registry :=
  ⟨[]⟩

/-- The catalog of a handle and its ancestors. The handle of an entry is the number of entries before it,
and only these are its ancestors. -/
def chainIn : List Entry → Nat → Chain
  | [], _ => []
  | e :: before, handle =>
    if handle = before.length then
      e.catalog ::
        match e.parent with
        | some parent => chainIn before parent
        | none => []
    else chainIn before handle

def chain (r : Registry) (handle : Nat) : Chain :=
  chainIn r.entries handle

def depth (r : Registry) (handle : Nat) : Nat :=
  (r.chain handle).length

def catalog? (r : Registry) (handle : Nat) : Option Catalog :=
  (r.chain handle).head?

def next (r : Registry) : Nat :=
  r.entries.length

def add (r : Registry) (e : Entry) : Registry :=
  ⟨e :: r.entries⟩

def create (r : Registry) (config : Config) : Registry :=
  r.add ⟨.new config, none⟩

def createIdentity (r : Registry) : Registry :=
  r.add ⟨.identity, none⟩

def createChild (r : Registry) (config : Config) (parent : Nat) : Except ChainProblem Registry :=
  let depth := r.depth parent + 1
  if config.maxDepth < depth then .error ⟨depth, config.maxDepth⟩
  else .ok (r.add ⟨.new config, some parent⟩)

def publishIn (table : Table) : List Entry → Nat → List Entry
  | [], _ => []
  | e :: before, handle =>
    if handle = before.length then { e with catalog := { e.catalog with table := table } } :: before
    else e :: publishIn table before handle

def publish (r : Registry) (handle : Nat) (table : Table) : Registry :=
  ⟨publishIn table r.entries handle⟩

def load (r : Registry) (handle : Nat) (m : Catalog) (raw : RawMessages) :
    Except LoadProblem (Registry × LoadReport) := do
  let (table, skipped) ← (Table.compile m.config.mode raw).mapError .pattern
  return (r.publish handle table, ⟨table.keyCounts, skipped⟩)

def loadBundle (r : Registry) (handle : Nat) (m : Catalog) (d : Directory) :
    Except LoadProblem (Registry × LoadReport) := do
  let raw ← (Bundle.load d).mapError .bundle
  r.load handle m raw

end Registry

end MessageCatalog
