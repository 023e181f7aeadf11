import SymbolCatalog.Zstd.CodeLengths
import SymbolCatalog.Zstd.Settings

/-! The literals of a block as they are written: as they are, as one byte that is repeated, or in a
Huffman code, in one stream or in four. -/
namespace SymbolCatalog.Zstd.LiteralSection

def plainHeader (sort n : Nat) : Bytes :=
  if n < 32 then Bytes.ofNatLE 1 (n * 8 + sort)
  else if n < 4096 then Bytes.ofNatLE 2 (n * 16 + 4 + sort)
  else Bytes.ofNatLE 3 (n * 16 + 12 + sort)

def plain (literals : Array UInt8) : Bytes := plainHeader 0 literals.size ++ literals.toList

def histogram (bytes : Array UInt8) : Array Nat :=
  let counts := bytes.foldl (fun counts b => counts.modify b.toNat (· + 1)) (Array.replicate 256 0)
  let largest := bytes.foldl (fun m b => max m b.toNat) 0
  counts.extract 0 (largest + 1)

def fewest (strategy : Strategy) : Nat := 8 * twoTo (min (9 - strategy.rank) 3)

def hopeless (literals : Array UInt8) : Bool :=
  let sample := 4096
  let most (bytes : Array UInt8) : Nat := (histogram bytes).foldl max 0
  sample * 10 ≤ literals.size &&
    most (literals.extract 0 sample) +
      most (literals.extract (literals.size - sample) literals.size) ≤ 2 * sample / 128 + 4

/-- The limit to the length of codes that makes literals and description shortest, from `limit` up
to `longestCode`; the search ends when they get longer. -/
def bestLimit (counts : Array Nat) (least : Nat) : (fuel limit best bestSize : Nat) → Nat
  | 0, _, best, _ => best
  | fuel + 1, limit, best, bestSize =>
    if longestCode < limit then best
    else
      let lengths := CodeLengths.ofCounts limit counts
      if CodeLengths.longest lengths < limit ∧ least < limit then best
      else
        match CodeLengths.describe lengths with
        | none => bestLimit counts least fuel (limit + 1) best bestSize
        | some description =>
          let size := CodeLengths.size lengths counts + description.length
          if bestSize + 1 < size then best
          else if size < bestSize then bestLimit counts least fuel (limit + 1) limit size
          else bestLimit counts least fuel (limit + 1) best bestSize

def codeLimit (strategy : Strategy) (literals : Array UInt8) (counts : Array Nat) : Nat :=
  if strategy.rank < Strategy.finest.rank then
    suitableLog longestCode literals.size (counts.size - 1) 1
  else
    let least := highBit (counts.toList.filter (· ≠ 0)).length + 1
    bestLimit counts least (longestCode + 1) least longestCode (twoTo 64)

def stream (codes : Array Field) (literals : Array UInt8) : Bytes :=
  packFields (literals.toList.reverse.map fun b => codes.getD b.toNat (0, 0))

def fourStreams (codes : Array Field) (literals : Array UInt8) : Option Bytes := do
  let quarter := (literals.size + 3) / 4
  let part (i : Nat) := stream codes (literals.extract (i * quarter) ((i + 1) * quarter))
  let parts := (part 0, part 1, part 2, part 3)
  let (a, b, c, d) := parts
  guard (12 ≤ literals.size ∧ [a, b, c, d].all (·.length < 65536))
  pure (Bytes.ofNatLE 2 a.length ++ Bytes.ofNatLE 2 b.length ++ Bytes.ofNatLE 2 c.length ++
    a ++ b ++ c ++ d)

def huffman (strategy : Strategy) (literals : Array UInt8) : Option Bytes := do
  let counts := histogram literals
  guard (literals.size / 128 + 4 < counts.foldl max 0)
  let lengths := CodeLengths.ofCounts (codeLimit strategy literals counts) counts
  let description ← CodeLengths.describe lengths
  guard (description.length + 12 < literals.size)
  let codes := CodeLengths.codes lengths
  let streams ←
    if literals.size < 256 then some (stream codes literals) else fourStreams codes literals
  guard (description.length + streams.length < literals.size - 1)
  pure (description ++ streams)

def huffmanHeader (count size : Nat) : Bytes :=
  let header (width bits format : Nat) : Bytes :=
    Bytes.ofNatLE width (2 + 4 * format + 16 * (count + twoTo bits * size))
  if count < 256 then header 3 10 0
  else if count < 1024 then header 3 10 1
  else if count < 16384 then header 4 14 2
  else header 5 18 3

def write (s : Settings) (fewRepetitions : Bool) (literals : Array UInt8) : Bytes :=
  let n := literals.size
  if n < fewest s.strategy ∨ (fewRepetitions ∧ hopeless literals) then plain literals
  else if literals.all (· = literals.getD 0 0) then plainHeader 1 n ++ [literals.getD 0 0]
  else
    match huffman s.strategy literals with
    | some encoded =>
      if encoded.length < n - s.minGain n then huffmanHeader n encoded.length ++ encoded
      else plain literals
    | none => plain literals

end SymbolCatalog.Zstd.LiteralSection
