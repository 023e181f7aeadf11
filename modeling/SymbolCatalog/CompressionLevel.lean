/-! How hard stored data is compressed. -/
namespace SymbolCatalog

inductive CompressionLevel where
  | off
  | fast
  | balanced
  | maximum
  | custom (level : Int32)
  deriving DecidableEq, Repr

namespace CompressionLevel

instance : Inhabited CompressionLevel := ⟨balanced⟩

def name? : CompressionLevel → Option String
  | off => some "off"
  | fast => some "fast"
  | balanced => some "balanced"
  | maximum => some "maximum"
  | custom _ => none

def ofName? (name : String) : Option CompressionLevel :=
  [off, fast, balanced, maximum].find? (·.name? = some name)

def minEffort : Int32 := 1

def maxEffort : Int32 := 22

/-- The effort to spend, 1 to 22, or nothing if data is stored as it is. A custom level outside
the range counts as its nearer end. -/
def effort? : CompressionLevel → Option Int32
  | off => none
  | fast => some 1
  | balanced => some 3
  | maximum => some 9
  | custom level => some (max minEffort (min level maxEffort))

end CompressionLevel
end SymbolCatalog
