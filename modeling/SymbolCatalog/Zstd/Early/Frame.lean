import SymbolCatalog.Zstd.Early.Sequences

/-! Frames of the seven early generations of the format, each with a magic number of its own.
Checksums are passed over. -/
namespace SymbolCatalog.Zstd.Early

def firstMagic : Nat := 0x1EB52FFD

/-- The magic number of the later generations, to which the generation's number is added. -/
def laterMagic : Nat := 0xFD2FB520

def generation? (data : Array UInt8) (pos : Nat) : Option Generation :=
  let magic := wordAt data pos 4
  if magic = firstMagic then some 1
  else if laterMagic + 2 ≤ magic ∧ magic ≤ laterMagic + 7 then some (magic - laterMagic)
  else none

structure FrameHeader where
  after : Nat
  contentSize : Nat

def readSixthHeader (data : Array UInt8) (pos : Nat) : Except Fault FrameHeader := do
  let descriptor := byteAt data (pos + 4)
  let sizePos := pos + 5
  require (descriptor / 32 % 2 = 0) .unsupported
  pure (match descriptor / 64 with
    | 0 => ⟨sizePos, 0⟩
    | 1 => ⟨sizePos + 1, byteAt data sizePos⟩
    | 2 => ⟨sizePos + 2, wordAt data sizePos 2 + 256⟩
    | _ => ⟨sizePos + 8, wordAt data sizePos 8⟩)

def widestWindow : Nat := 27

def readSeventhHeader (data : Array UInt8) (pos : Nat) : Except Fault FrameHeader := do
  let descriptor := byteAt data (pos + 4)
  let single := descriptor / 32 % 2 = 1
  let idWidth := #[0, 1, 2, 4].getD (descriptor % 4) 0
  let sizeSort := descriptor / 64
  let idPos := if single then pos + 5 else pos + 6
  let sizePos := idPos + idWidth
  let sizeWidth := if sizeSort = 0 then (if single then 1 else 0) else twoTo sizeSort
  let stored := wordAt data sizePos sizeWidth
  let size := if sizeSort = 1 then stored + 256 else stored
  require (descriptor / 8 % 2 = 0) .unsupported
  require (wordAt data idPos idWidth = 0) .unsupported
  if single then require (size % twoTo 32 ≤ twoTo widestWindow) .unsupported
  else require (byteAt data (pos + 5) / 8 + 10 ≤ widestWindow) .unsupported
  pure ⟨sizePos + sizeWidth, size⟩

def readHeader (g : Generation) (data : Array UInt8) (pos : Nat) : Except Fault FrameHeader := do
  if g ≤ 3 then pure ⟨pos + 4, 0⟩
  else if g ≤ 5 then
    require (byteAt data (pos + 4) < 16) .unsupported
    pure ⟨pos + 5, 0⟩
  else if g = 6 then readSixthHeader data pos
  else readSeventhHeader data pos

def readBlocks (g : Generation) (data : Array UInt8) (origin limit : Nat) : (fuel pos : Nat) →
    Memory → Array UInt8 → Except Fault (Array UInt8 × Nat)
  | 0, _, _, _ => .error .truncated
  | fuel + 1, pos, memory, out => do
    require (pos + 3 ≤ data.size) .truncated
    let header := blockHeader data pos
    let body := pos + 3
    if header.sort = endSort then pure (out, body)
    else if header.sort = repeatedSort then
      require (g = 7) .unsupported
      require (body + 1 ≤ data.size) .truncated
      require (out.size + header.size ≤ limit) .overflow
      readBlocks g data origin limit fuel (body + 1) memory
        (out ++ Array.replicate header.size (data.getD body 0))
    else if header.size = 0 ∧ g < 7 then pure (out, body)
    else
      require (body + header.size ≤ data.size) .truncated
      if header.sort = plainSort then
        require (out.size + header.size ≤ limit) .overflow
        readBlocks g data origin limit fuel (body + header.size) memory
          (out ++ data.extract body (body + header.size))
      else
        let (out, memory) ← decodeBlock g data body (body + header.size) origin limit memory out
        readBlocks g data origin limit fuel (body + header.size) memory out

def readFrame (g : Generation) (data : Array UInt8) (pos limit : Nat) (out : Array UInt8) :
    Except Fault (Array UInt8 × Nat) := do
  let header ← readHeader g data pos
  require (header.after + 3 ≤ data.size) .truncated
  let origin := out.size
  let (out, after) ← readBlocks g data origin limit data.size header.after {} out
  require (header.contentSize = 0 || out.size - origin = header.contentSize) .corrupt
  pure (out, after)

end SymbolCatalog.Zstd.Early
