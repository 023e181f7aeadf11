import SymbolCatalog.Distinct
import SymbolCatalog.Wire.Basic

/-! Files are named by numbers. A scope tells which files a query may see; a set of files is one. -/
namespace SymbolCatalog

structure FileId where
  raw : UInt32
  deriving DecidableEq, Repr, Inhabited

namespace FileId

def label (file : FileId) : String := "#" ++ toString file.raw.toNat

instance : Wire FileId := ⟨fun file => write file.raw, FileId.mk <$> read⟩

instance : LE FileId := ⟨fun a b => a.raw ≤ b.raw⟩

instance (a b : FileId) : Decidable (a ≤ b) := inferInstanceAs (Decidable (a.raw ≤ b.raw))

end FileId

abbrev Scope := FileId → Bool

def Scope.everywhere : Scope := fun _ => true

structure FileSet where
  files : List FileId
  distinct : files.Nodup

namespace FileSet

def ofList (files : List FileId) : FileSet := ⟨addAllNew [] files, nodup_addAllNew (by simp) files⟩

def size (set : FileSet) : Nat := set.files.length

def isEmpty (set : FileSet) : Bool := set.files.isEmpty

def scope (set : FileSet) : Scope := (set.files.contains ·)

end FileSet
end SymbolCatalog
