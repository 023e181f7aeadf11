import SymbolCatalog.Zstd.Block
import SymbolCatalog.Zstd.Sequence

/-! The codes of the numbers in a sequence. A number is written as a code, for which there are
tables of states, and extra bits that tell how far it is from the least number of its code. -/
namespace SymbolCatalog.Zstd

def lastCode (codes : CodeTable) (value : Nat) : Nat :=
  (codes.toList.filter fun c => c.1 ≤ value).length - 1

def smallLiteralCodes : Array Nat := ((List.range 64).map (lastCode literalCodes)).toArray

def smallMatchCodes : Array Nat := ((List.range 131).map (lastCode matchCodes)).toArray

def literalCode (literals : Nat) : Nat :=
  if literals < 64 then smallLiteralCodes.getD literals 0 else highBit literals + 19

def matchCode (length : Nat) : Nat :=
  if length < 131 then smallMatchCodes.getD length 0 else highBit (length - 3) + 36

def literalExtra (code : Nat) : Nat := (literalCodes.getD code (0, 0)).2

def matchExtra (code : Nat) : Nat := (matchCodes.getD code (0, 0)).2

def offsetCode (offset : Nat) : Nat := highBit offset

end SymbolCatalog.Zstd
