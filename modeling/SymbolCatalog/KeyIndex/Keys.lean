import SymbolCatalog.KeyIndex.Session

/-! The keys of an index that occur in a scope. All of them are collected before the first one is
shown, so a store that fails on the way has shown nothing. -/
namespace SymbolCatalog.KeyIndex
variable {K V σ : Type}

structure Found (K V : Type) where
  entries : List (K × Occurrences V)
  considered : Nat

structure Visited (α : Type) where
  completed : Bool
  result : α
  considered : Nat

variable [DecidableEq K] [DecidableEq V] [Wire K] [Wire V]

/-- The accepted keys among stored ones, apart from those that are held, with their occurrences. -/
def stored (store : Store σ) (held : K → Bool) (accepts : K → Bool) :
    List Bytes → StoreCall σ (Found K V)
  | [] => pure ⟨[], 0⟩
  | place :: rest => do
    let key ← (decodeRecord (place.drop 1) : Except StorageError K)
    if held key then stored store held accepts rest
    else
      let container? ← if accepts key then load (V := V) store key else pure none
      let found ← stored store held accepts rest
      pure ⟨(container?.map (key, ·)).toList ++ found.entries, found.considered + 1⟩

def collect (store : Store σ) (accepts : K → Bool) : Call K V σ (Found K V) := do
  let held := (← now).containers
  let places ← (store.keysFrom containerFamily).second
  let found ← (stored (V := V) store held.contains accepts places).second
  pure ⟨held.pairs.filter (accepts ·.1) ++ found.entries, held.size + found.considered⟩

def visitKeys {α : Type} (store : Store σ) (scope : Scope) (accepts : K → Bool)
    (visitor : α → K → Bool × α) (start : α) : Call K V σ (Visited α) := do
  let found ← collect (V := V) store accepts
  let keys := (found.entries.filter (·.2.anyFile scope)).map (·.1)
  let (completed, result) := visitAll visitor start keys
  pure ⟨completed, result, found.considered⟩

end SymbolCatalog.KeyIndex
