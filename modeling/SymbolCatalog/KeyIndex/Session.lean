import SymbolCatalog.KeyIndex.Basic

/-! An index at work on a store. What the index needs is read from the store before anything
changes, so a call that fails leaves every answer as it was; only a flush and a clear write to the
store. -/
namespace SymbolCatalog.KeyIndex
variable {K V σ : Type}

abbrev Call (K V σ : Type) := StoreCall (KeyIndex K V × σ)

def now : Call K V σ (KeyIndex K V) := return (← getThe (KeyIndex K V × σ)).1

def change (f : KeyIndex K V → KeyIndex K V) : Call K V σ Unit :=
  modifyThe (KeyIndex K V × σ) fun (index, s) => (f index, s)

def openOn (store : Store σ) (version : UInt32) : StoreCall σ (KeyIndex K V) := do
  if (← store.get versionKey) ≠ some (stamp version) then
    store.clear
    store.put versionKey (stamp version)
  pure (empty version)

variable [DecidableEq K] [DecidableEq V] [Wire K] [Wire V]

def load (store : Store σ) (key : K) : StoreCall σ (Option (Occurrences V)) := do
  match ← store.get (containerKey key) with
  | some bytes => some <$> (decodeRecord bytes : Except StorageError (Occurrences V))
  | none => pure none

def fetch (store : Store σ) (key : K) : Call K V σ Unit := do
  if !(← now).containers.contains key then
    let container? ← (load (V := V) store key).second
    change (·.cache key (container?.getD .empty))

def keysOf (store : Store σ) (file : FileId) : Call K V σ (List K) := do
  let index ← now
  match index.forward.get? file with
  | some keys => pure keys
  | none =>
    if file ∈ index.dirtyFiles then pure []
    else
      match ← (store.get (fileKey file)).second with
      | some bytes => (decodeRecord bytes : Except StorageError (List K))
      | none => pure []

def update (store : Store σ) (file : FileId) (entries : List (K × V)) : Call K V σ Unit := do
  let previous ← keysOf store file
  (addAllNew previous (entries.map (·.1))).forM (fetch store)
  change (·.replace file previous entries)

def removeFile (store : Store σ) (file : FileId) : Call K V σ Bool := do
  let previous ← keysOf store file
  previous.forM (fetch store)
  change (·.drop file previous)
  pure !previous.isEmpty

def writeKey (store : Store σ) (key : K) : Call K V σ Unit := do
  let container := (← now).held key
  if container.isEmpty then (store.remove (containerKey key)).second
  else (store.put (containerKey key) (write container)).second
  change (·.keyWritten key)

def writeFile (store : Store σ) (file : FileId) : Call K V σ Unit := do
  match (← now).forward.get? file with
  | some keys => (store.put (fileKey file) (write keys)).second
  | none => (store.remove (fileKey file)).second
  change (·.fileWritten file)

/-- Writes all that has changed, first the occurrences and then the keys of the files, and flushes
the store. What was not written when a call fails is still to be written. -/
def flush (store : Store σ) : Call K V σ Unit := do
  (← now).dirtyKeys.forM (writeKey store)
  (← now).dirtyFiles.forM (writeFile store)
  store.flush.second

def clear (store : Store σ) : Call K V σ Unit := do
  let version := (← now).version
  change fun _ => empty version
  store.clear.second
  (store.put versionKey (stamp version)).second

def get (store : Store σ) (key : K) : Call K V σ (Occurrences V) := do
  match (← now).containers.get? key with
  | some container => pure container
  | none =>
    match ← (load (V := V) store key).second with
    | some container =>
      change (·.cache key container)
      pure container
    | none => pure .empty

end SymbolCatalog.KeyIndex
