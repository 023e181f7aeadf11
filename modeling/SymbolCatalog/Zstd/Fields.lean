import SymbolCatalog.Bytes
import SymbolCatalog.Zstd.Bits

/-! Bit fields put together into bytes, from the lowest bit of the first byte on. -/
namespace SymbolCatalog.Zstd

abbrev Field := Nat × Nat

structure Packing where
  bytes : Bytes := []
  pending : Nat := 0
  width : Nat := 0

namespace Packing

def flush (bytes : Bytes) (pending : Nat) : (count width : Nat) → Packing
  | 0, width => ⟨bytes, pending, width⟩
  | count + 1, width => flush (UInt8.ofNat pending :: bytes) (pending / 256) count width

def add (p : Packing) (field : Field) : Packing :=
  let width := p.width + field.2
  flush p.bytes (p.pending + field.1 % twoTo field.2 * twoTo p.width) (width / 8) (width % 8)

end Packing

def gather (fields : List Field) : Packing := fields.foldl .add {}

def packBits (fields : List Field) : Bytes :=
  let p := gather fields
  p.bytes.reverse ++ if p.width = 0 then [] else [UInt8.ofNat p.pending]

def packFields (fields : List Field) : Bytes :=
  let p := gather fields
  p.bytes.reverse ++ [UInt8.ofNat (p.pending + twoTo p.width)]

end SymbolCatalog.Zstd
