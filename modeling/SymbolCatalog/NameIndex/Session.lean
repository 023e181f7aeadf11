import SymbolCatalog.NameIndex.Basic
import SymbolCatalog.Config.Basic
import SymbolCatalog.Store.File

/-! An index of names at work on a store. Indexing a file stores its tree before its names change;
if the names cannot be changed, the tree that was stored before is put back. -/
namespace SymbolCatalog.NameIndex
variable {σ α : Type}

abbrev Call (σ : Type) := ExceptT Fault (StateM (NameIndex × σ))

def now : Call σ NameIndex := return (← getThe (NameIndex × σ)).1

def change (f : NameIndex → NameIndex) : Call σ Unit :=
  modifyThe (NameIndex × σ) fun (index, s) => (f index, s)

def onStore (call : StoreCall σ α) : Call σ α := fun (index, s) =>
  let (answer, s) := call.run s
  (answer.mapError .storage, index, s)

def onNames (call : KeyIndex.Call String Reference σ α) : Call σ α := fun (index, s) =>
  let (answer, names, s) := call.run (index.names, s)
  (answer.mapError .storage, { index with names }, s)

def openOn (store : Store σ) (version : UInt32) (capacity : Nat) : StoreCall σ NameIndex :=
  return ⟨← KeyIndex.openOn store version, .empty capacity, .empty⟩

def openAt (config : Config) : StoreCall Site (NameIndex × FileStore) := do
  let store ← FileStore.openIn config.compression
  fun site =>
    match (openOn fileStore config.indexVersion config.cacheCapacity).run (store, site) with
    | (.ok index, store, site) => (.ok (index, store), site)
    | (.error e, _, site) => (.error e, site)

def restore (store : Store σ) (key : Bytes) : Option Bytes → StoreCall σ Unit
  | some old => store.put key old
  | none => store.remove key

def indexFile (store : Store σ) (file : FileId) (tree : Tree) : Call σ Unit := do
  let key := treeKey file
  let previous? ← onStore (store.get key)
  change fun index => { index with trees := (index.trees.erase file).2 }
  onStore (store.put key tree.encode)
  try
    onNames (KeyIndex.update store file (tree.declarations.map fun d => (d.1, ⟨file, d.2⟩)))
  catch fault =>
    try onStore (restore store key previous?) catch _ => pure ()
    throw fault
  change fun index => { index with trees := index.trees.insert file tree }

def removeFile (store : Store σ) (file : FileId) : Call σ Bool := do
  change fun index => { index with trees := (index.trees.erase file).2 }
  onStore (store.remove (treeKey file))
  onNames (KeyIndex.removeFile store file)

def get (store : Store σ) (name : String) : Call σ (Occurrences Reference) :=
  onNames (KeyIndex.get store name)

def find (store : Store σ) (name : String) : Call σ (List Reference) :=
  return ((← get store name).pairs.map (·.2)).mergeSort Reference.le

def tree (store : Store σ) (file : FileId) : Call σ (Option Tree) := do
  let (cached?, trees) := (← now).trees.get file
  change ({ · with trees })
  match cached? with
  | some tree => pure (some tree)
  | none =>
    match ← onStore (store.get (treeKey file)) with
    | none => pure none
    | some bytes =>
      let (decoded, table) := Tree.decode bytes (← now).table
      change ({ · with table })
      match decoded with
      | .error fault => throw (.record fault)
      | .ok tree =>
        change fun index => { index with trees := index.trees.insert file tree }
        pure (some tree)

def resolve (store : Store σ) (reference : Reference) : Call σ (Option Resolved) := do
  match ← tree store reference.file with
  | some tree => pure (if tree.contains reference.node then some ⟨tree, reference.node⟩ else none)
  | none => pure none

/-- Gives a method its default value in the tree that is kept in memory; the stored tree stays as
it is. The answer is the declaration with the value, or nothing if it is not a method. -/
def setDefault (store : Store σ) (reference : Reference) (text : String) :
    Call σ (Option Resolved) := do
  match ← resolve store reference with
  | none => pure none
  | some found =>
    if (found.tree.method? found.node).isNone then pure none
    else
      change fun index =>
        { index with trees := index.trees.adjust reference.file (·.setDefault found.node text) }
      pure (some { found with tree := found.tree.setDefault found.node text })

def flush (store : Store σ) : Call σ Unit := onNames (KeyIndex.flush store)

def clear (store : Store σ) : Call σ Unit := do
  change fun index => { index with trees := index.trees.clear }
  onNames (KeyIndex.clear store)

def visitNames (store : Store σ) (scope : Scope) (accepts : String → Bool)
    (visitor : α → String → Bool × α) (start : α) : Call σ (KeyIndex.Visited α) :=
  onNames (KeyIndex.visitKeys store scope accepts visitor start)

end SymbolCatalog.NameIndex
