import SymbolCatalog.Zstd.Huffman

/-! Compressed blocks: a section of literals, and sequences that say how many literals to take and
what to repeat from the data before. Tables and the last three distances are kept from block to
block within a frame. -/
namespace SymbolCatalog.Zstd

def maxBlock : Nat := 128 * 1024

abbrev CodeTable := Array (Nat × Nat)

def literalCodes : CodeTable :=
  ((List.range 16).map (·, 0) ++
    [(16, 1), (18, 1), (20, 1), (22, 1), (24, 2), (28, 2), (32, 3), (40, 3), (48, 4), (64, 6),
     (128, 7), (256, 8), (512, 9), (1024, 10), (2048, 11), (4096, 12), (8192, 13), (16384, 14),
     (32768, 15), (65536, 16)]).toArray

def matchCodes : CodeTable :=
  ((List.range 32).map (· + 3, 0) ++
    [(35, 1), (37, 1), (39, 1), (41, 1), (43, 2), (47, 2), (51, 3), (59, 3), (67, 4), (83, 4),
     (99, 5), (131, 7), (259, 8), (515, 9), (1027, 10), (2051, 11), (4099, 12), (8195, 13),
     (16387, 14), (32771, 15), (65539, 16)]).toArray

def literalShares : List Int :=
  [4, 3, 2, 2, 2, 2, 2, 2, 2, 2, 2, 2, 2, 1, 1, 1, 2, 2, 2, 2, 2, 2, 2, 2, 2, 3, 2, 1, 1, 1, 1, 1,
   -1, -1, -1, -1]

def matchShares : List Int :=
  [1, 4, 3, 2, 2, 2, 2, 2, 2, 1, 1, 1, 1, 1, 1, 1, 1, 1, 1, 1, 1, 1, 1, 1, 1, 1, 1, 1, 1, 1, 1, 1,
   1, 1, 1, 1, 1, 1, 1, 1, 1, 1, 1, 1, 1, 1, -1, -1, -1, -1, -1, -1, -1]

def distanceShares : List Int :=
  [1, 1, 1, 1, 1, 1, 2, 2, 2, 1, 1, 1, 1, 1, 1, 1, 1, 1, 1, 1, 1, 1, 1, 1, -1, -1, -1, -1, -1]

def literalTable : FseTable := .ofShares 6 literalShares

def matchTable : FseTable := .ofShares 6 matchShares

def distanceTable : FseTable := .ofShares 5 distanceShares

structure SequenceTables where
  literal : FseTable
  distance : FseTable
  matching : FseTable
  deriving Inhabited

structure Memory where
  huffman? : Option HuffmanTable := none
  tables? : Option SequenceTables := none
  recent : Nat × Nat × Nat := (1, 4, 8)

def require (condition : Bool) (fault : Fault) : Except Fault Unit :=
  if condition then .ok () else .error fault

def readLiterals (data : Array UInt8) (pos stop limit : Nat) (huffman? : Option HuffmanTable) :
    Except Fault (Array UInt8 × Option HuffmanTable × Nat) := do
  require (pos + 2 ≤ stop) .truncated
  let first := byteAt data pos
  let sort := first % 4
  let format := first / 4 % 4
  if sort < 2 then
    let (header, count) :=
      if format = 1 then (2, wordAt data pos 2 / 16)
      else if format = 3 then (3, wordAt data pos 3 / 16)
      else (1, first / 8)
    require (count ≤ limit) .corrupt
    if sort = 0 then
      require (pos + header + count ≤ stop) .truncated
      pure (data.extract (pos + header) (pos + header + count), huffman?, pos + header + count)
    else
      require (pos + header + 1 ≤ stop) .truncated
      pure (Array.replicate count (data.getD (pos + header) 0), huffman?, pos + header + 1)
  else
    require (pos + 5 ≤ stop) .truncated
    let (header, width) := if format < 2 then (3, 10) else if format = 2 then (4, 14) else (5, 18)
    let word := wordAt data pos header / 16
    let count := word % twoTo width
    let length := word / twoTo width
    require (count ≤ limit) .corrupt
    require (format = 0 || 6 ≤ count) .corrupt
    let body := pos + header
    require (body + length ≤ stop) .truncated
    let (table, start) ←
      if sort = 3 then
        match huffman? with
        | some table => pure (table, body)
        | none => throw .corrupt
      else
        let read ← HuffmanTable.read data body (body + length)
        require (read.2 < body + length) .truncated
        pure read
    let rest := body + length - start
    let literals ←
      if format = 0 then table.decodeStream data start rest count #[]
      else table.decodeFour data start rest count
    pure (literals, some table, body + length)

def readSequenceCount (data : Array UInt8) (pos stop : Nat) : Except Fault (Nat × Nat) := do
  require (pos < stop) .truncated
  let first := byteAt data pos
  if first < 128 then pure (first, pos + 1)
  else if first = 255 then
    require (pos + 3 ≤ stop) .truncated
    pure (wordAt data (pos + 1) 2 + 0x7F00, pos + 3)
  else
    require (pos + 2 ≤ stop) .truncated
    pure ((first - 128) * 256 + byteAt data (pos + 1), pos + 2)

def readTable (data : Array UInt8) (mode pos stop maxLog maxSymbol : Nat) (plain : FseTable)
    (last? : Option FseTable) : Except Fault (FseTable × Nat) := do
  match mode with
  | 0 => pure (plain, pos)
  | 1 =>
    require (pos < stop) .truncated
    require (byteAt data pos ≤ maxSymbol) .corrupt
    pure (.constant (byteAt data pos), pos + 1)
  | 2 => FseTable.read data pos stop maxLog maxSymbol
  | _ =>
    match last? with
    | some table => pure (table, pos)
    | none => throw .corrupt

def readTables (data : Array UInt8) (pos stop : Nat) (last? : Option SequenceTables) :
    Except Fault (SequenceTables × Nat) := do
  require (pos < stop) .truncated
  let modes := byteAt data pos
  require (modes % 4 = 0) .corrupt
  let (literal, pos) ←
    readTable data (modes / 64) (pos + 1) stop 9 35 literalTable (last?.map (·.literal))
  let (distance, pos) ←
    readTable data (modes / 16 % 4) pos stop 8 31 distanceTable (last?.map (·.distance))
  let (matching, pos) ←
    readTable data (modes / 4 % 4) pos stop 9 52 matchTable (last?.map (·.matching))
  pure (⟨literal, distance, matching⟩, pos)

/-- The distance that a code stands for, and the recent distances after it. A code below 2 names
one of the recent distances; right after another match without literals they shift by one. -/
def distanceOf (code extra literals : Nat) (recent : Nat × Nat × Nat) : Nat × (Nat × Nat × Nat) :=
  let (r1, r2, r3) := recent
  if code ≥ 2 then
    let distance := twoTo code - 3 + extra
    (distance, (distance, r1, r2))
  else
    match code + extra + (if literals = 0 then 1 else 0) with
    | 0 => (r1, recent)
    | 1 => (r2, (r2, r1, r3))
    | 2 => (r3, (r3, r1, r2))
    | _ => (r1 - 1, (r1 - 1, r1, r2))

def repeatBack (distance : Nat) : (count : Nat) → Array UInt8 → Array UInt8
  | 0, out => out
  | count + 1, out => repeatBack distance count (out.push (out.getD (out.size - distance) 0))

structure Progress where
  states : Nat × Nat × Nat
  bits : BackBits
  recent : Nat × Nat × Nat
  used : Nat
  out : Array UInt8

def runSequences (tables : SequenceTables) (literals : Array UInt8) (origin limit : Nat) :
    (count : Nat) → Progress → Except Fault Progress
  | 0, p => if p.bits.finished then .ok p else .error .corrupt
  | count + 1, p => do
    let (ls, ds, ms) := p.states
    let (literalBase, literalBits) := literalCodes.getD (tables.literal.cell ls).symbol (0, 0)
    let (matchBase, matchBits) := matchCodes.getD (tables.matching.cell ms).symbol (0, 0)
    let code := (tables.distance.cell ds).symbol
    let (extra, bits) := p.bits.take code
    let (distance, recent) := distanceOf code extra literalBase p.recent
    let (matchExtra, bits) := bits.take matchBits
    let (literalExtra, bits) := bits.take literalBits
    let taken := literalBase + literalExtra
    let repeated := matchBase + matchExtra
    require (p.used + taken ≤ literals.size) .corrupt
    require (p.out.size + taken + repeated ≤ limit) .overflow
    let out := p.out ++ literals.extract p.used (p.used + taken)
    require (0 < distance && distance ≤ out.size - origin) .corrupt
    let out := repeatBack distance repeated out
    let (states, bits) :=
      if count = 0 then (p.states, bits)
      else
        let (ls, bits) := tables.literal.next ls bits
        let (ms, bits) := tables.matching.next ms bits
        let (ds, bits) := tables.distance.next ds bits
        ((ls, ds, ms), bits)
    runSequences tables literals origin limit count ⟨states, bits, recent, p.used + taken, out⟩

def decodeBlock (data : Array UInt8) (pos stop blockLimit origin limit : Nat) (memory : Memory)
    (out : Array UInt8) : Except Fault (Array UInt8 × Memory) := do
  require (stop - pos ≤ blockLimit) .corrupt
  let (literals, huffman?, pos) ← readLiterals data pos stop blockLimit memory.huffman?
  require (out.size + literals.size ≤ limit) .overflow
  let memory := { memory with huffman? }
  let (count, pos) ← readSequenceCount data pos stop
  if count = 0 then
    require (pos = stop) .corrupt
    pure (out ++ literals, memory)
  else
    let (tables, pos) ← readTables data pos stop memory.tables?
    let bits ← BackBits.ofSection data pos (stop - pos)
    let (ls, bits) := tables.literal.start bits
    let (ds, bits) := tables.distance.start bits
    let (ms, bits) := tables.matching.start bits
    let p ← runSequences tables literals origin limit count
      ⟨(ls, ds, ms), bits, memory.recent, 0, out⟩
    require (p.out.size + (literals.size - p.used) ≤ limit) .overflow
    pure (p.out ++ literals.extract p.used literals.size,
      { memory with tables? := some tables, recent := p.recent })

end SymbolCatalog.Zstd
