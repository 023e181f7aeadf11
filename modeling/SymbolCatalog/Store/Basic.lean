import SymbolCatalog.Store.Entries
import SymbolCatalog.Store.Error

/-! What an index needs of a store of byte strings: looking up, putting, removing, listing keys,
flushing and clearing. Every call may fail, and may change the state of the store. -/
namespace SymbolCatalog

abbrev StoreCall (σ : Type) := ExceptT StorageError (StateM σ)

structure Store (σ : Type) where
  get : Bytes → StoreCall σ (Option Bytes)
  put : Bytes → Bytes → StoreCall σ Unit
  remove : Bytes → StoreCall σ Unit
  keys : StoreCall σ (List Bytes)
  keysFrom : Bytes → StoreCall σ (List Bytes)
  flush : StoreCall σ Unit
  clear : StoreCall σ Unit

def filterKeys {σ : Type} (keys : StoreCall σ (List Bytes)) (start : Bytes) :
    StoreCall σ (List Bytes) :=
  return (← keys).filter (Bytes.startsWith · start)

def StoreCall.on {σ τ α : Type} (call : StoreCall σ α) (get : τ → σ) (set : σ → τ → τ) :
    StoreCall τ α := fun t =>
  let (answer, s) := call (get t)
  (answer, set s t)

def StoreCall.second {σ τ α : Type} (call : StoreCall σ α) : StoreCall (τ × σ) α :=
  call.on (·.2) fun s t => (t.1, s)

def Store.on {σ τ : Type} (store : Store σ) (get : τ → σ) (set : σ → τ → τ) : Store τ where
  get key := (store.get key).on get set
  put key value := (store.put key value).on get set
  remove key := (store.remove key).on get set
  keys := store.keys.on get set
  keysFrom start := (store.keysFrom start).on get set
  flush := store.flush.on get set
  clear := store.clear.on get set

def memoryStore : Store Entries where
  get key := return (← getThe Entries).get? key
  put key value := modify (·.insert key value)
  remove key := modify (·.erase key)
  keys := return (← getThe Entries).keys
  keysFrom start := return (← getThe Entries).keysFrom start
  flush := pure ()
  clear := set Entries.empty

end SymbolCatalog
