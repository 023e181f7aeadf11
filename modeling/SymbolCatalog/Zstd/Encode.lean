import SymbolCatalog.Zstd.Frame
import SymbolCatalog.Zstd.LiteralSection
import SymbolCatalog.Zstd.Search.Cheapest
import SymbolCatalog.Zstd.Search.Double
import SymbolCatalog.Zstd.Search.Lazy
import SymbolCatalog.Zstd.Search.Single
import SymbolCatalog.Zstd.SequenceSection

/-! Writing Zstandard frames: one frame with the content's size, and blocks of up to 128 KiB. A
block that would not get shorter by enough is written as it is. -/
namespace SymbolCatalog.Zstd

inductive Search where
  | single (table : Array Nat)
  | double (tables : Double.Tables)
  | lazy (tables : Lazy.Tables)
  | cheapest (memory? : Option Cheapest.Memory)

namespace Search

def start (s : Settings) : Search :=
  match s.strategy with
  | .single => .single (Array.replicate (twoTo s.hashLog) 0)
  | .double => .double ⟨Array.replicate (twoTo s.hashLog) 0, Array.replicate (twoTo s.chainLog) 0⟩
  | .greedy | .lazy | .lazier | .sorted => .lazy (.empty s)
  | .cheapest | .finest | .twice => .cheapest none

def block (s : Settings) (data : Array UInt8) (start stop : Nat) (recent : Recent) :
    Search → Array Sequence × Search × Recent
  | .single table =>
    let (found, table, recent) := Single.sequences s data start stop table recent
    (found, .single table, recent)
  | .double tables =>
    let (found, tables, recent) := Double.sequences s data start stop tables recent
    (found, .double tables, recent)
  | .lazy tables =>
    let (found, tables, recent) := Lazy.sequences s data start stop tables recent
    (found, .lazy tables, recent)
  | .cheapest memory? =>
    let (found, memory, recent) := Cheapest.sequences s data start stop memory? recent
    (found, .cheapest (some memory), recent)

end Search

def literalsOf (data : Array UInt8) (start stop : Nat) (sequences : Array Sequence) : Array UInt8 :=
  let (literals, pos) := sequences.foldl (fun (literals, pos) q =>
    (literals ++ data.extract pos (pos + q.literals), pos + q.literals + q.length))
    ((#[] : Array UInt8), start)
  literals ++ data.extract pos stop

def blockContent (s : Settings) (data : Array UInt8) (start stop : Nat)
    (sequences : Array Sequence) : Option Bytes := do
  let literals := literalsOf data start stop sequences
  let few := sequences.isEmpty || 20 ≤ literals.size / sequences.size
  let content :=
    LiteralSection.write s few literals ++ (← SequenceSection.write s.strategy sequences)
  let size := stop - start
  guard (content.length < size - s.minGain size)
  pure content

def blockHeader (isLast : Bool) (sort size : Nat) : Bytes :=
  Bytes.ofNatLE 3 (size * 8 + sort * 2 + if isLast then 1 else 0)

def leastBlock : Nat := 7

/-- Blocks from a position on. A later block of one repeated byte is told by that byte alone. -/
def writeBlocks (s : Settings) (data : Array UInt8) : (fuel pos : Nat) → Recent → Search → Bytes
  | 0, _, _, _ => []
  | fuel + 1, pos, recent, search =>
    let stop := min (pos + maxBlock) data.size
    let isLast : Bool := stop = data.size
    let plain := data.extract pos stop
    let first := plain.getD 0 0
    let (content?, search, after) :=
      if plain.size < leastBlock then (none, search, recent)
      else
        let (sequences, search, after) := search.block s data pos stop recent
        (blockContent s data pos stop sequences, search, after)
    let (block, recent) :=
      match content? with
      | some content =>
        if 0 < pos ∧ content.length < 25 ∧ plain.all (· = first) then
          (blockHeader isLast 1 plain.size ++ [first], recent)
        else (blockHeader isLast 2 content.length ++ content, after)
      | none => (blockHeader isLast 0 plain.size ++ plain.toList, recent)
    if isLast then block else block ++ writeBlocks s data fuel stop recent search

def contentSize (n : Nat) : Bytes :=
  if n < 256 then 0x20 :: Bytes.ofNatLE 1 n
  else if n < 65536 + 256 then 0x60 :: Bytes.ofNatLE 2 (n - 256)
  else if n < twoTo 32 then 0xA0 :: Bytes.ofNatLE 4 n
  else 0xE0 :: Bytes.ofNatLE 8 n

def compress (effort : Nat) (content : Bytes) : Bytes :=
  let data := content.toArray
  let s := Settings.ofEffort effort data.size
  Bytes.ofNatLE 4 frameMagic ++ contentSize data.size ++
    writeBlocks s data (data.size + 1) 0 (1, 4, 8) (.start s)

def plainBlocks (content : Bytes) : Bytes :=
  if content.length ≤ maxBlock then blockHeader true 0 content.length ++ content
  else
    blockHeader false 0 maxBlock ++ content.take maxBlock ++ plainBlocks (content.drop maxBlock)
termination_by content.length
decreasing_by
  rw [List.length_drop]
  simp only [maxBlock] at *
  omega

def plain (content : Bytes) : Bytes :=
  Bytes.ofNatLE 4 frameMagic ++ contentSize content.length ++ plainBlocks content

/-- A frame that reads back as the content: the compressed one if it does, else the plain one. -/
def compressSafely (effort : Nat) (content : Bytes) : Bytes :=
  let frame := compress effort content
  if (decompress frame content.length).toOption = some content then frame else plain content

end SymbolCatalog.Zstd
