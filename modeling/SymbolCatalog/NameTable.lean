import SymbolCatalog.Distinct
import SymbolCatalog.Text.Quoted

/-! The table of the distinct names met so far. Names are kept in order of first occurrence;
entering a name again changes nothing. -/
namespace SymbolCatalog

structure NameTable where
  names : List String
  distinct : names.Nodup := by simp

namespace NameTable

def empty : NameTable := ⟨[], by simp⟩

instance : Inhabited NameTable := ⟨empty⟩

def intern (table : NameTable) (name : String) : NameTable :=
  ⟨addNew table.names name, nodup_addNew table.distinct name⟩

def internAll (table : NameTable) (names : List String) : NameTable := names.foldl intern table

def size (table : NameTable) : Nat := table.names.length

def isEmpty (table : NameTable) : Bool := table.names.isEmpty

/-- Sorts names by their characters' code points, which is also the order of their UTF-8 bytes. -/
def sorted (names : List String) : List String := names.mergeSort fun a b => decide (a ≤ b)

def inspect (names : List String) : String := Text.Inspect.sequence (names.map Text.quoted)

end NameTable
end SymbolCatalog
