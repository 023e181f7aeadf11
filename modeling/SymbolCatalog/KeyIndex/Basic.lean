import SymbolCatalog.Dict
import SymbolCatalog.Occurrences
import SymbolCatalog.Store.Basic

/-! An index from keys to the occurrences of values in files. It holds what was touched since it was
opened; everything else is in the store, in families told apart by the first byte of a place. -/
namespace SymbolCatalog

structure KeyIndex (K V : Type) where
  version : UInt32
  /-- The occurrences of the keys touched; a key without occurrences may be among them. -/
  containers : Dict K (Occurrences V)
  /-- The keys of the files that were updated; a file that was removed is not among them. -/
  forward : Dict FileId (List K)
  dirtyKeys : List K
  dirtyFiles : List FileId

namespace KeyIndex

def versionKey : Bytes := [0x00]

def containerFamily : Bytes := [0x01]

def fileFamily : Bytes := [0x02]

def stamp (version : UInt32) : Bytes := Bytes.ofNatLE 4 version.toNat

def containerKey {K : Type} [Wire K] (key : K) : Bytes := containerFamily ++ write key

def fileKey (file : FileId) : Bytes := fileFamily ++ Bytes.ofNatLE 4 file.raw.toNat

def decodeRecord {α : Type} [Wire α] (bytes : Bytes) : Except StorageError α :=
  match Wire.decode? (α := α) bytes with
  | .ok (a, []) => .ok a
  | .ok (_, rest) => .error (.corrupted (.trailing rest.length))
  | .error e => .error (.unreadable e)

variable {K V : Type}

def empty (version : UInt32) : KeyIndex K V := ⟨version, .empty, .empty, [], []⟩

variable [DecidableEq K] [DecidableEq V]

def held (index : KeyIndex K V) (key : K) : Occurrences V :=
  (index.containers.get? key).getD .empty

def cache (index : KeyIndex K V) (key : K) (container : Occurrences V) : KeyIndex K V :=
  { index with containers := index.containers.insert key container }

def edit (index : KeyIndex K V) (key : K) (change : Occurrences V → Occurrences V) :
    KeyIndex K V :=
  { index with
    containers := index.containers.insert key (change (index.held key))
    dirtyKeys := addNew index.dirtyKeys key }

def withdraw (index : KeyIndex K V) (file : FileId) (keys : List K) : KeyIndex K V :=
  keys.foldl (fun index key => index.edit key fun c => (c.removeFile file).2) index

def replace (index : KeyIndex K V) (file : FileId) (previous : List K) (entries : List (K × V)) :
    KeyIndex K V :=
  let keys := addAllNew [] (entries.map (·.1))
  let index := index.withdraw file (addAllNew previous keys)
  let index := entries.foldl (fun index e => index.edit e.1 (·.insert file e.2)) index
  { index with
    forward := if keys.isEmpty then index.forward.erase file else index.forward.insert file keys
    dirtyFiles := addNew index.dirtyFiles file }

def drop (index : KeyIndex K V) (file : FileId) (previous : List K) : KeyIndex K V :=
  let index := index.withdraw file previous
  { index with
    forward := index.forward.erase file
    dirtyFiles := addNew index.dirtyFiles file }

def keyWritten (index : KeyIndex K V) (key : K) : KeyIndex K V :=
  { index with dirtyKeys := index.dirtyKeys.filter (· ≠ key) }

def fileWritten (index : KeyIndex K V) (file : FileId) : KeyIndex K V :=
  { index with dirtyFiles := index.dirtyFiles.filter (· ≠ file) }

end KeyIndex
end SymbolCatalog
