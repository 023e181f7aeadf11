import SymbolCatalog.Store.Basic

/-! A store that counts its calls and can be told to fail some of them. A call that fails has no
effect; it is counted like any other. -/
namespace SymbolCatalog

inductive CallKind where
  | get
  | put
  | remove
  | keys
  | flush
  | clear
  deriving DecidableEq, Repr

namespace CallKind

def all : List CallKind := [get, put, remove, keys, flush, clear]

def name : CallKind → String
  | get => "get"
  | put => "put"
  | remove => "remove"
  | keys => "keys"
  | flush => "flush"
  | clear => "clear"

end CallKind

structure Probe where
  fails : CallKind → Option Bytes → Bool
  calls : List CallKind

namespace Probe

def idle : Probe := ⟨fun _ _ => false, []⟩

/-- From now on the calls of the given kinds fail; those with a key only if the key begins with
`start`. -/
def failing (probe : Probe) (kinds : List CallKind) (start : Bytes) : Probe :=
  { probe with fails := fun kind key? =>
      kind ∈ kinds && (key?.map (Bytes.startsWith · start)).getD true }

def count (probe : Probe) (kind : CallKind) : Nat := probe.calls.count kind

def guarded {σ α : Type} (kind : CallKind) (key? : Option Bytes) (call : StoreCall σ α) :
    StoreCall (Probe × σ) α := do
  let (probe, _) ← getThe (Probe × σ)
  modifyThe (Probe × σ) fun (probe, s) => ({ probe with calls := kind :: probe.calls }, s)
  if probe.fails kind key? then throw (.io .other)
  else call.second

def wrap {σ : Type} (store : Store σ) : Store (Probe × σ) where
  get key := guarded .get (some key) (store.get key)
  put key value := guarded .put (some key) (store.put key value)
  remove key := guarded .remove (some key) (store.remove key)
  keys := guarded .keys none store.keys
  keysFrom := filterKeys (guarded .keys none store.keys)
  flush := guarded .flush none store.flush
  clear := guarded .clear none store.clear

end Probe
end SymbolCatalog
