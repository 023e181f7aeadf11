import SymbolCatalog.CompressionLevel

/-! The settings of an index on disk, and which settings are acceptable. -/
namespace SymbolCatalog

structure Config where
  storageDir : String
  compression : CompressionLevel
  cacheCapacity : Nat
  /-- A store of another version is cleared when the index is opened. -/
  indexVersion : UInt32
  deriving DecidableEq, Repr

namespace Config

def standard : Config := ⟨".declindex", .balanced, 256, 1⟩

instance : Inhabited Config := ⟨standard⟩

def snapshotName : String := "index.didx"

def join (dir name : String) : String :=
  if dir.isEmpty || dir.endsWith "/" then dir ++ name else dir ++ "/" ++ name

def snapshotPath (config : Config) : String := join config.storageDir snapshotName

inductive Invalid where
  | noCapacity
  | levelOutOfRange (level : Int32)
  deriving DecidableEq, Repr

def Invalid.message : Invalid → String
  | .noCapacity => "Invalid configuration: descriptor_cache_capacity must be at least 1"
  | .levelOutOfRange level =>
    "Invalid configuration: compression level " ++ toString level.toInt ++ " is outside 1..=22"

def fault? (config : Config) : Option Invalid :=
  if config.cacheCapacity = 0 then some .noCapacity
  else
    match config.compression with
    | .custom level =>
      if CompressionLevel.minEffort ≤ level ∧ level ≤ CompressionLevel.maxEffort then none
      else some (.levelOutOfRange level)
    | _ => none

def validate (config : Config) : Except Invalid Config :=
  match config.fault? with
  | some fault => .error fault
  | none => .ok config

end Config
end SymbolCatalog
