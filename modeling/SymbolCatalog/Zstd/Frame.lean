import SymbolCatalog.Bytes
import SymbolCatalog.Digest.XxHash64
import SymbolCatalog.Zstd.Early.Frame

/-! Zstandard frames. Frames of early generations and frames to be skipped may stand among those of
the present generation. -/
namespace SymbolCatalog.Zstd

def frameMagic : Nat := 0xFD2FB528

def skippableMagic : Nat := 0x184D2A50

structure FrameHeader where
  after : Nat
  blockLimit : Nat
  contentSize? : Option Nat
  hasChecksum : Bool
  deriving Repr

def readFrameHeader (data : Array UInt8) (pos : Nat) : Except Fault FrameHeader := do
  require (wordAt data pos 4 = frameMagic) .notAFrame
  let descriptor := byteAt data (pos + 4)
  let sizeSort := descriptor / 64
  let single := descriptor / 32 % 2 = 1
  require (descriptor / 8 % 2 = 0) .unsupported
  let idWidth := #[0, 1, 2, 4].getD (descriptor % 4) 0
  let sizeWidth := if sizeSort = 0 then (if single then 1 else 0) else twoTo sizeSort
  let windowPos := pos + 5
  let idPos := if single then windowPos else windowPos + 1
  let sizePos := idPos + idWidth
  let after := sizePos + sizeWidth
  require (after + 3 ≤ data.size) .truncated
  require (wordAt data idPos idWidth = 0) .unsupported
  let stored := wordAt data sizePos sizeWidth
  let contentSize? :=
    if sizeWidth = 0 then none else some (if sizeSort = 1 then stored + 256 else stored)
  let window ←
    if single then pure (contentSize?.getD 0)
    else do
      let byte := byteAt data windowPos
      let log := byte / 8 + 10
      require (log ≤ 31) .unsupported
      pure (twoTo log + twoTo log / 8 * (byte % 8))
  pure ⟨after, min window maxBlock, contentSize?, descriptor / 4 % 2 = 1⟩

def readBlocks (data : Array UInt8) (header : FrameHeader) (origin limit : Nat) :
    (fuel pos : Nat) → Memory → Array UInt8 → Except Fault (Array UInt8 × Nat)
  | 0, _, _, _ => .error .truncated
  | fuel + 1, pos, memory, out => do
    require (pos + 3 ≤ data.size) .truncated
    let word := wordAt data pos 3
    let size := word / 8
    let body := pos + 3
    let (out, memory, after) ←
      match word / 2 % 4 with
      | 0 => do
        require (body + size ≤ data.size) .truncated
        require (out.size + size ≤ limit) .overflow
        pure (out ++ data.extract body (body + size), memory, body + size)
      | 1 => do
        require (body + 1 ≤ data.size) .truncated
        require (out.size + size ≤ limit) .overflow
        pure (out ++ Array.replicate size (data.getD body 0), memory, body + 1)
      | 2 => do
        require (body + size ≤ data.size) .truncated
        let (out, memory) ←
          decodeBlock data body (body + size) header.blockLimit origin limit memory out
        pure (out, memory, body + size)
      | _ => throw .corrupt
    if word % 2 = 1 then pure (out, after)
    else readBlocks data header origin limit fuel after memory out

def readFrame (data : Array UInt8) (pos limit : Nat) (out : Array UInt8) :
    Except Fault (Array UInt8 × Nat) := do
  require (pos + 9 ≤ data.size) .truncated
  let header ← readFrameHeader data pos
  let origin := out.size
  let (out, after) ← readBlocks data header origin limit data.size header.after {} out
  match header.contentSize? with
  | some size => require (out.size - origin = size) .corrupt
  | none => pure ()
  if header.hasChecksum then
    require (after + 4 ≤ data.size) .truncated
    let sum := (Digest.XxHash64.hash (out.extract origin out.size)).toNat % twoTo 32
    require (wordAt data after 4 = sum) .checksum
    pure (out, after + 4)
  else pure (out, after)

/-- Decompresses all frames from a byte position on. Each takes at least five bytes. -/
def readFrames (data : Array UInt8) (limit : Nat) :
    (fuel pos : Nat) → Array UInt8 → Except Fault (Array UInt8)
  | 0, _, _ => .error .truncated
  | fuel + 1, pos, out => do
    if pos = data.size then pure out
    else
      require (pos + 5 ≤ data.size) .truncated
      if wordAt data pos 4 / 16 = skippableMagic / 16 then
        require (pos + 8 ≤ data.size) .truncated
        let after := pos + 8 + wordAt data (pos + 4) 4
        require (after ≤ data.size) .truncated
        readFrames data limit fuel after out
      else
        let (out, after) ←
          match Early.generation? data pos with
          | some generation => Early.readFrame generation data pos limit out
          | none => readFrame data pos limit out
        readFrames data limit fuel after out

def decompress (data : Bytes) (limit : Nat) : Except Fault Bytes :=
  (readFrames data.toArray limit (data.length + 1) 0 #[]).map (·.toList)

end SymbolCatalog.Zstd
