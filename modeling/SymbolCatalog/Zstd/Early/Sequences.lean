import SymbolCatalog.Bytes
import SymbolCatalog.Zstd.Early.Literals

/-! The sequences of compressed blocks in the early generations. The first five write codes up to a
largest one, beyond which bytes of their own tell the number; the last two use the present codes. -/
namespace SymbolCatalog.Zstd.Early

structure Step where
  literals : Nat
  distance : Nat
  length : Nat

structure CodeSort where
  plainBits : Nat
  maxLog : Nat
  largest : Nat

def literalCodes : CodeSort := ⟨6, 10, 63⟩

def distanceCodes : CodeSort := ⟨5, 9, 31⟩

def lengthCodes : CodeSort := ⟨7, 10, 127⟩

def plainTable (bits : Nat) : FseTable :=
  ⟨bits, ((List.range (twoTo bits)).map fun symbol => ⟨symbol, bits, 0⟩).toArray⟩

inductive TableForm where
  | described
  | plain
  | constant
  | last

def tableForm (g : Generation) (mode : Nat) : TableForm :=
  if g ≤ 4 then (match mode with | 1 => .plain | 2 => .constant | _ => .described)
  else (match mode with | 0 => .plain | 1 => .constant | 2 => .last | _ => .described)

def readTable (g : Generation) (data : Array UInt8) (sort : CodeSort) (mode pos stop : Nat) :
    Except Fault (FseTable × Nat) := do
  match tableForm g mode with
  | .described => FseTable.read data pos stop sort.maxLog sort.largest
  | .plain => pure (plainTable sort.plainBits, pos)
  | .constant =>
    require (pos + 2 ≤ stop) .truncated
    pure (.constant (min (byteAt data pos) sort.largest), pos + 1)
  | .last => throw .unsupported

structure Head where
  count : Nat
  tables : SequenceTables
  spill : Bytes
  after : Nat

def readHead (g : Generation) (data : Array UInt8) (count pos stop : Nat) : Except Fault Head := do
  require (pos + 2 ≤ stop) .truncated
  let modes := byteAt data pos
  let wide := modes / 2 % 2 = 1
  require (!wide || pos + 3 ≤ stop) .truncated
  let (pos, size) :=
    if wide then (pos + 3, byteAt data (pos + 1) * 256 + byteAt data (pos + 2))
    else (pos + 2, modes % 2 * 256 + byteAt data (pos + 1))
  let spill := (data.extract pos (pos + size)).toList
  let pos := pos + size
  require (pos + 3 ≤ stop) .truncated
  let (literal, pos) ← readTable g data literalCodes (modes / 64) pos stop
  let (distance, pos) ← readTable g data distanceCodes (modes / 16 % 4) pos stop
  let (matching, pos) ← readTable g data lengthCodes (modes / 4 % 4) pos stop
  pure ⟨count, ⟨literal, distance, matching⟩, spill, pos⟩

def readCount (g : Generation) (data : Array UInt8) (pos stop : Nat) :
    Except Fault (Nat × Nat) := do
  if g ≤ 4 then
    require (pos + 5 ≤ stop) .truncated
    pure (wordAt data pos 2, pos + 2)
  else if g = 5 then
    require (pos < stop) .truncated
    let first := byteAt data pos
    if first < 128 then pure (first, pos + 1)
    else
      require (pos + 2 ≤ stop) .truncated
      pure ((first - 128) * 256 + byteAt data (pos + 1), pos + 2)
  else readSequenceCount data pos stop

/-- A number whose code is the largest one is told by spilled bytes. -/
def extend (g : Generation) (largest n : Nat) (spill : Bytes) : Nat × Bytes :=
  if n ≠ largest then (n, spill)
  else
    match spill with
    | [] => (n, [])
    | b :: rest =>
      if b < 255 then (n + b.toNat, rest)
      else if g ≤ 4 then
        match rest with
        | x :: y :: z :: rest => (Bytes.toNatLE [x, y, z], rest)
        | _ => (n, rest)
      else
        match rest with
        | x :: y :: rest =>
          let word := Bytes.toNatLE [x, y]
          match rest with
          | z :: rest =>
            if word % 2 = 1 then ((word + z.toNat * 65536) / 2, rest) else (word / 2, z :: rest)
          | [] => (word / 2, [])
        | _ => (n, rest)

structure Position where
  states : Nat × Nat × Nat
  bits : BackBits
  latest : Nat
  earlier : Nat
  spill : Bytes

/-- Reads a sequence with codes up to a largest one. A distance whose code is zero is that of the
sequence before, or right after it the one before that. -/
def readStep (g : Generation) (tables : SequenceTables) (p : Position) : Step × Position :=
  let (ls, ds, ms) := p.states
  let symbol := (tables.literal.cell ls).symbol
  let (literals, spill) := extend g literalCodes.largest symbol p.spill
  let code := (tables.distance.cell ds).symbol
  let width := code - 1
  let (ls, ds, extra, bits) :=
    if g = 5 then
      let (extra, bits) := p.bits.take width
      let (ds, bits) := tables.distance.next ds bits
      let (ls, bits) := tables.literal.next ls bits
      (ls, ds, extra, bits)
    else
      let (ls, bits) := tables.literal.next ls p.bits
      let (ds, bits) := tables.distance.next ds bits
      let (extra, bits) := bits.take width
      (ls, ds, extra, bits)
  let repeated := if symbol = 0 then p.earlier else p.latest
  let distance := if code = 0 then repeated else twoTo width + extra
  let earlier := if g ≤ 3 ∨ code ≠ 0 ∨ literals = 0 then p.latest else p.earlier
  let (length, spill) := extend g lengthCodes.largest (tables.matching.cell ms).symbol spill
  let (ms, bits) := tables.matching.next ms bits
  (⟨literals, distance, length + 4⟩, ⟨(ls, ds, ms), bits, distance, earlier, spill⟩)

structure Memory where
  tables? : Option SequenceTables := none
  recent : Nat × Nat × Nat := (1, 4, 8)

def recentDistance (code extra literals : Nat) (recent : Nat × Nat × Nat) :
    Nat × (Nat × Nat × Nat) :=
  let (r1, r2, r3) := recent
  if 2 ≤ code then
    let distance := twoTo code - 3 + extra
    (distance, (distance, r1, r2))
  else
    match (if literals = 0 ∧ code + extra ≤ 1 then 1 - (code + extra) else code + extra) with
    | 0 => (r1, recent)
    | 1 => (r2, (r2, r1, r3))
    | _ => (r3, (r3, r1, r2))

structure LatePosition where
  states : Nat × Nat × Nat
  bits : BackBits
  recent : Nat × Nat × Nat

def readLateStep (tables : SequenceTables) (p : LatePosition) : Step × LatePosition :=
  let (ls, ds, ms) := p.states
  let (literalBase, literalBits) := Zstd.literalCodes.getD (tables.literal.cell ls).symbol (0, 0)
  let (matchBase, matchBits) := matchCodes.getD (tables.matching.cell ms).symbol (0, 0)
  let code := (tables.distance.cell ds).symbol
  let (extra, bits) := p.bits.take code
  let (distance, recent) := recentDistance code extra literalBase p.recent
  let (matchExtra, bits) := bits.take matchBits
  let (literalExtra, bits) := bits.take literalBits
  let (ls, bits) := tables.literal.next ls bits
  let (ms, bits) := tables.matching.next ms bits
  let (ds, bits) := tables.distance.next ds bits
  (⟨literalBase + literalExtra, distance, matchBase + matchExtra⟩, ⟨(ls, ds, ms), bits, recent⟩)

structure Output where
  used : Nat
  out : Array UInt8

def Output.run (o : Output) (g : Generation) (literals : Array UInt8) (origin limit : Nat)
    (step : Step) : Except Fault Output := do
  let margin := if g = 1 then 0 else 8
  require (o.out.size + step.literals + margin ≤ limit) .overflow
  require (o.out.size + step.literals + step.length ≤ limit) .overflow
  require (o.used + step.literals ≤ literals.size) .corrupt
  let out := o.out ++ literals.extract o.used (o.used + step.literals)
  require (0 < step.distance && step.distance ≤ out.size - origin) .corrupt
  pure ⟨o.used + step.literals, repeatBack step.distance step.length out⟩

def Output.finish (o : Output) (literals : Array UInt8) (limit : Nat) :
    Except Fault (Array UInt8) := do
  require (o.out.size + (literals.size - o.used) ≤ limit) .overflow
  pure (o.out ++ literals.extract o.used literals.size)

def runSteps (g : Generation) (tables : SequenceTables) (literals : Array UInt8)
    (origin limit : Nat) : (count : Nat) → Position → Output → Except Fault Output
  | 0, p, o => if p.bits.finished then .ok o else .error .corrupt
  | count + 1, p, o => do
    require (!p.bits.overrun) .corrupt
    let (step, p) := readStep g tables p
    let o ← o.run g literals origin limit step
    runSteps g tables literals origin limit count p o

def runLateSteps (g : Generation) (tables : SequenceTables) (literals : Array UInt8)
    (origin limit : Nat) : (count : Nat) → LatePosition → Output →
    Except Fault (Output × (Nat × Nat × Nat))
  | 0, p, o => .ok (o, p.recent)
  | count + 1, p, o => do
    require (!p.bits.overrun) .corrupt
    let (step, p) := readLateStep tables p
    let o ← o.run g literals origin limit step
    runLateSteps g tables literals origin limit count p o

def start (tables : SequenceTables) (bits : BackBits) : (Nat × Nat × Nat) × BackBits :=
  let (ls, bits) := tables.literal.start bits
  let (ds, bits) := tables.distance.start bits
  let (ms, bits) := tables.matching.start bits
  ((ls, ds, ms), bits)

def presentMode (g : Generation) (mode : Nat) : Nat :=
  match tableForm g mode with
  | .plain => 0
  | .constant => 1
  | .described => 2
  | .last => 3

def decodeBlock (g : Generation) (data : Array UInt8) (pos stop origin limit : Nat)
    (memory : Memory) (out : Array UInt8) : Except Fault (Array UInt8 × Memory) := do
  require (g ≤ 4 || stop - pos < maxBlock) .corrupt
  let (literals, pos) ← readLiterals g data pos stop limit
  let (count, pos) ← readCount g data pos stop
  if g ≤ 5 then
    if g = 5 ∧ count = 0 then
      pure (← Output.finish ⟨0, out⟩ literals limit, memory)
    else
      let head ← readHead g data count pos stop
      let bits ← BackBits.ofSection data head.after (stop - head.after)
      let (states, bits) := start head.tables bits
      let first := if g = 4 then 4 else 1
      let o ← runSteps g head.tables literals origin limit count
        ⟨states, bits, first, first, head.spill⟩ ⟨0, out⟩
      pure (← o.finish literals limit, memory)
  else if count = 0 then pure (← Output.finish ⟨0, out⟩ literals limit, memory)
  else
    require (pos + 4 ≤ stop) .truncated
    let modes := byteAt data pos
    let last? := if g = 7 then memory.tables? else none
    let mode (i : Nat) : Nat := presentMode g (modes / i % 4)
    let (literal, pos) ← Zstd.readTable data (mode 64) (pos + 1) stop 9 35 literalTable
      (last?.map (·.literal))
    let (distance, pos) ← Zstd.readTable data (mode 16) pos stop 8 28 distanceTable
      (last?.map (·.distance))
    let (matching, pos) ← Zstd.readTable data (mode 4) pos stop 9 52 matchTable
      (last?.map (·.matching))
    let tables : SequenceTables := ⟨literal, distance, matching⟩
    let bits ← BackBits.ofSection data pos (stop - pos)
    let (states, bits) := start tables bits
    let recent := if g = 6 then (1, 1, 1) else memory.recent
    let (o, recent) ← runLateSteps g tables literals origin limit count ⟨states, bits, recent⟩
      ⟨0, out⟩
    pure (← o.finish literals limit, ⟨some tables, recent⟩)

end SymbolCatalog.Zstd.Early
