import SymbolCatalog.KeyIndex.Keys
import SymbolCatalog.LruCache
import SymbolCatalog.Record.File

/-! An index of declarations by name. The names of the tree of each file go into an index of keys,
the tree is stored beside it, and trees that were used lately are in a cache. -/
namespace SymbolCatalog

structure Reference where
  file : FileId
  node : NodeId
  deriving DecidableEq, Repr

namespace Reference

instance : Wire Reference where
  write r := write r.file ++ write r.node
  read := do
    let file ← read
    let node ← read
    pure ⟨file, node⟩

def le (a b : Reference) : Bool :=
  if a.file = b.file then a.node.raw ≤ b.node.raw else a.file ≤ b.file

end Reference

def Tree.declarations (t : Tree) : List (String × NodeId) :=
  t.arena.iter.filterMap fun id =>
    (t.payload? id).bind fun payload =>
      if payload.kind.isIndexed then payload.name?.map (·, id) else none

structure Resolved where
  tree : Tree
  node : NodeId

namespace Resolved

def payload? (r : Resolved) : Option Payload := r.tree.payload? r.node

def kind? (r : Resolved) : Option Kind := r.tree.kind? r.node

def name? (r : Resolved) : Option String := r.payload?.bind (·.name?)

end Resolved

structure NameIndex where
  names : KeyIndex String Reference
  trees : LruCache FileId Tree
  /-- All names met in trees that were decoded or built for this index. -/
  table : NameTable

namespace NameIndex

def treeFamily : Bytes := [0x10]

def treeKey (file : FileId) : Bytes := treeFamily ++ Bytes.ofNatLE 4 file.raw.toNat

inductive Fault where
  | storage (e : StorageError)
  | record (fault : Record.Fault)

end NameIndex
end SymbolCatalog
