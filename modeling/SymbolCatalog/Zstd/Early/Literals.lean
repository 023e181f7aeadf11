import SymbolCatalog.Zstd.Block

/-! The literals of compressed blocks in the seven early generations of the format. The first one
gives them a block header of their own, the next three a header of three bytes, the last three one
whose length depends on their number. -/
namespace SymbolCatalog.Zstd.Early

abbrev Generation := Nat

structure BlockHeader where
  sort : Nat
  size : Nat

def compressedSort : Nat := 0

def plainSort : Nat := 1

def repeatedSort : Nat := 2

def endSort : Nat := 3

def blockHeader (data : Array UInt8) (pos : Nat) : BlockHeader :=
  ⟨byteAt data pos / 64,
    byteAt data pos % 8 * 65536 + byteAt data (pos + 1) * 256 + byteAt data (pos + 2)⟩

def evenCounts : Array Nat := #[1, 2, 3, 4, 7, 8, 15, 16, 31, 32, 63, 64, 127, 128]

/-- Reads the description of codes. Besides the present forms there are short ones for symbols that
are all equally frequent. -/
def readCodes (data : Array UInt8) (pos stop : Nat) : Except Fault (HuffmanTable × Nat) := do
  require (pos < stop) .truncated
  match evenCounts[byteAt data pos - 242]? with
  | some count =>
    if 242 ≤ byteAt data pos then
      pure (← HuffmanTable.ofWeights (List.replicate count 1), pos + 1)
    else HuffmanTable.read data pos stop
  | none => HuffmanTable.read data pos stop

def decode (data : Array UInt8) (pos stop count : Nat) (single : Bool) :
    Except Fault (Array UInt8) := do
  let (table, start) ← readCodes data pos stop
  require (start < stop) .truncated
  if single then table.decodeStream data start (stop - start) count #[]
  else table.decodeFour data start (stop - start) count

def decodeAny (data : Array UInt8) (pos stop count : Nat) : Except Fault (Array UInt8) := do
  require (0 < count && stop - pos ≤ count) .corrupt
  if stop - pos = count then pure (data.extract pos stop)
  else if stop - pos = 1 then pure (Array.replicate count (data.getD pos 0))
  else decode data pos stop count false

abbrev Read := Array UInt8 × Nat

def readWithHeader (data : Array UInt8) (pos stop limit : Nat) : Except Fault Read := do
  require (pos + 3 ≤ stop) .truncated
  let header := blockHeader data pos
  let body := pos + 3
  if header.sort = plainSort then
    require (body + header.size ≤ stop) .truncated
    pure (data.extract body (body + header.size), body + header.size)
  else if header.sort = repeatedSort then
    require (body + 1 ≤ stop) .truncated
    require (header.size ≤ limit) .overflow
    pure (Array.replicate header.size (data.getD body 0), body + 1)
  else if header.sort = compressedSort then
    require (body + header.size ≤ stop && 3 < header.size) .corrupt
    let count := byteAt data pos / 8 % 8 * 65536 + byteAt data body * 256 + byteAt data (body + 1)
    require (count ≤ limit) .overflow
    pure (← decode data (body + 2) (body + header.size) count false, body + header.size)
  else throw .corrupt

/-- Literals after a header of three bytes, or of five if they are encoded. Plain ones are counted
from the header on where less than eight bytes follow them. -/
def readWithLowHeader (data : Array UInt8) (pos stop : Nat) : Except Fault Read := do
  require (pos + 11 ≤ stop) .corrupt
  let count := wordAt data pos 3 / 4
  match byteAt data pos % 4 with
  | 0 =>
    let count := count % twoTo 19
    let size := wordAt data (pos + 2) 3 / 32
    require (count ≤ maxBlock && pos + 5 + size ≤ stop) .corrupt
    pure (← decodeAny data (pos + 5) (pos + 5 + size) count, pos + 5 + size)
  | 1 =>
    let after := pos + 3 + count
    require (after ≤ stop) .corrupt
    require (after + 8 ≤ stop || count ≤ maxBlock) .corrupt
    let first := if after + 8 ≤ stop then pos + 3 else pos
    pure (data.extract first (first + count), after)
  | 2 =>
    require (count ≤ maxBlock) .corrupt
    pure (Array.replicate count (data.getD (pos + 3) 0), pos + 4)
  | _ => throw .corrupt

def highWordAt (data : Array UInt8) (pos width : Nat) : Nat :=
  (List.range width).foldl (fun acc i => acc * 256 + byteAt data (pos + i)) 0

def readWithHighHeader (g : Generation) (data : Array UInt8) (pos stop : Nat) :
    Except Fault Read := do
  require (pos + 3 ≤ stop) .corrupt
  let first := byteAt data pos
  let format := first / 16 % 4
  let sort := first / 64
  if sort = 0 then
    require (pos + 5 ≤ stop) .corrupt
    let (width, bits) := if format < 2 then (3, 10) else if format = 2 then (4, 14) else (5, 18)
    let word := highWordAt data pos width % twoTo (2 * bits)
    let count := word / twoTo bits
    let size := word % twoTo bits
    let body := pos + width
    require (count ≤ maxBlock && body + size ≤ stop) .corrupt
    let literals ←
      if format = 1 then decode data body (body + size) count true
      else if g = 7 then
        require (1 < size && size < count) .corrupt
        decode data body (body + size) count false
      else decodeAny data body (body + size) count
    pure (literals, body + size)
  else
    require (sort ≠ 1) .unsupported
    let (width, count) :=
      if format < 2 then (1, first % 32)
      else if format = 2 then (2, highWordAt data pos 2 % twoTo 12)
      else (3, highWordAt data pos 3 % twoTo 20)
    let body := pos + width
    if sort = 2 then
      require (body + count ≤ stop) .corrupt
      pure (data.extract body (body + count), body + count)
    else
      require (count ≤ maxBlock && body + 1 ≤ stop) .corrupt
      pure (Array.replicate count (data.getD body 0), body + 1)

def readLiterals (g : Generation) (data : Array UInt8) (pos stop limit : Nat) : Except Fault Read :=
  if g = 1 then readWithHeader data pos stop limit
  else if g ≤ 4 then readWithLowHeader data pos stop
  else readWithHighHeader g data pos stop

end SymbolCatalog.Zstd.Early
