import SymbolCatalog.Config.Basic
import SymbolCatalog.Store.Site
import SymbolCatalog.Text.Utf8
import SymbolCatalog.Toml.Document

/-! Settings read from a document. A document may leave any of them out and hold nothing else; what
it leaves out has its standard value. -/
namespace SymbolCatalog.Config
open Toml (Value)

inductive Error where
  | unreadable (kind : IoKind)
  | malformed
  | invalid (fault : Invalid)
  deriving DecidableEq, Repr

def isVoid : Value → Bool
  | .list [] => true
  | .table _ [] => true
  | _ => false

def within? (low high : Int) (n : Int) : Option Int := if low ≤ n ∧ n < high then some n else none

/-- A level: its name, or a table whose only key is the name of a level, with nothing in it, or
`custom`, with a number. -/
def level? : Value → Option CompressionLevel
  | .text name => CompressionLevel.ofName? name
  | .table _ [("custom", .whole n)] => (within? (-0x80000000) 0x80000000 n).map (.custom ∘ .ofInt)
  | .table _ [(name, value)] => if isVoid value then CompressionLevel.ofName? name else none
  | _ => none

def set? (config : Config) : (key : String) → Value → Option Config
  | "storage_dir", .text dir => some { config with storageDir := dir }
  | "compression", value => (level? value).map ({ config with compression := · })
  | "descriptor_cache_capacity", .whole n =>
    (within? 0 0x10000000000000000 n).map ({ config with cacheCapacity := ·.toNat })
  | "index_version", .whole n =>
    (within? 0 0x100000000 n).map fun n => { config with indexVersion := .ofNat n.toNat }
  | _, _ => none

def ofDocument (text : String) : Except Error Config :=
  let config? := (Toml.parse? text).bind fun table =>
    table.foldlM (fun config entry => config.set? entry.1 entry.2) standard
  match config? with
  | none => .error .malformed
  | some config => config.validate.mapError .invalid

def load : PathContent → Except Error Config
  | .absent => .error (.unreadable .notFound)
  | .directory => .error (.unreadable .isADirectory)
  | .file bytes =>
    match Text.Utf8.decode bytes with
    | .ok text => ofDocument text
    | .error _ => .error (.unreadable .invalidData)

end SymbolCatalog.Config
