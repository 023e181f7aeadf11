import SymbolCatalog.Store.Site
import SymbolCatalog.Store.Snapshot

/-! A store that is kept in one snapshot file. A flush writes a neighbouring temporary file, which
then takes the place of the snapshot before, so a reader finds the old snapshot or the new one. -/
namespace SymbolCatalog

structure FileStore where
  level : CompressionLevel
  entries : Entries
  dirty : Bool

namespace FileStore

def openWith (codec : Codec) (level : CompressionLevel) (site : Site) :
    Except StorageError FileStore :=
  match site.snapshot with
  | .absent => .ok ⟨level, .empty, false⟩
  | .directory => .error (.io .isADirectory)
  | .file bytes => (Snapshot.decode codec bytes).map fun entries => ⟨level, entries, false⟩

def openAt : CompressionLevel → Site → Except StorageError FileStore := openWith .zstd

def openIn (level : CompressionLevel) : StoreCall Site FileStore := do
  Site.createParent
  match openAt level (← getThe Site) with
  | .ok store => pure store
  | .error e => throw e

def saveWith (codec : Codec) (level : CompressionLevel) (entries : Entries) :
    StoreCall Site Unit := do
  match Snapshot.encode codec level entries with
  | .error e => throw e
  | .ok bytes =>
    Site.createParent
    Site.writeTemporary bytes
    Site.rename

def save : CompressionLevel → Entries → StoreCall Site Unit := saveWith .zstd

def put (store : FileStore) (key value : Bytes) : FileStore :=
  { store with entries := store.entries.insert key value, dirty := true }

def remove (store : FileStore) (key : Bytes) : FileStore :=
  if (store.entries.get? key).isSome then
    { store with entries := store.entries.erase key, dirty := true }
  else store

def clear (store : FileStore) : FileStore :=
  if store.entries.isEmpty then store else { store with entries := .empty, dirty := true }

/-- Saves the dictionary if it has changed. The mark goes first, and comes back if saving fails. -/
def flushWith (codec : Codec) : StoreCall (FileStore × Site) Unit := do
  let (store, _) ← getThe (FileStore × Site)
  mark false
  if store.dirty then
    try (saveWith codec store.level store.entries).second
    catch e =>
      mark true
      throw e
where
  mark (dirty : Bool) : StoreCall (FileStore × Site) Unit :=
    modifyThe (FileStore × Site) fun (store, site) => ({ store with dirty }, site)

def query {α : Type} (f : Entries → α) : StoreCall (FileStore × Site) α :=
  return f (← getThe (FileStore × Site)).1.entries

def change (f : FileStore → FileStore) : StoreCall (FileStore × Site) Unit :=
  modifyThe (FileStore × Site) fun (store, site) => (f store, site)

end FileStore

def fileStoreWith (codec : Codec) : Store (FileStore × Site) where
  get key := FileStore.query (·.get? key)
  put key value := FileStore.change (·.put key value)
  remove key := FileStore.change (·.remove key)
  keys := FileStore.query (·.keys)
  keysFrom start := FileStore.query (·.keysFrom start)
  flush := FileStore.flushWith codec
  clear := FileStore.change (·.clear)

def fileStore : Store (FileStore × Site) := fileStoreWith .zstd

end SymbolCatalog
