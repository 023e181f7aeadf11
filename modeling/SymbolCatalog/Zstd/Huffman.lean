import SymbolCatalog.Zstd.Fse

/-! Huffman codes for literals. A description gives a weight to each symbol but the last, whose
weight follows from the others; a symbol of weight w has a code of `log + 1 - w` bits. -/
namespace SymbolCatalog.Zstd

/-- For every word of `log` bits the symbol whose code it begins with, and the code's length. -/
structure HuffmanTable where
  log : Nat
  cells : Array (UInt8 × Nat)
  deriving Inhabited

namespace HuffmanTable

def maxLog : Nat := 12

def weightLoop (table : FseTable) : (fuel : Nat) → (a b : Nat) → BackBits → (done : List Nat) →
    Except Fault (List Nat)
  | 0, _, _, _, _ => .error .corrupt
  | fuel + 1, a, b, bits, done =>
    let done := (table.cell a).symbol :: done
    let (next, bits) := table.next a bits
    if bits.overrun then .ok ((table.cell b).symbol :: done).reverse
    else weightLoop table fuel b next bits done

def compressedWeights (data : Array UInt8) (pos length : Nat) : Except Fault (List Nat) := do
  let (table, after) ← FseTable.read data pos (pos + length) 6 255
  let bits ← BackBits.ofSection data after (pos + length - after)
  let (a, bits) := table.start bits
  let (b, bits) := table.start bits
  if bits.overrun then throw .corrupt
  weightLoop table 254 a b bits []

def plainWeights (data : Array UInt8) (pos count : Nat) : List Nat :=
  (List.range count).map fun i =>
    let byte := byteAt data (pos + i / 2)
    if i % 2 = 0 then byte / 16 else byte % 16

def share (weight : Nat) : Nat := if weight = 0 then 0 else twoTo (weight - 1)

def cellsOf (log : Nat) (weights : List (Nat × Nat)) (weight : Nat) : List (UInt8 × Nat) :=
  (weights.filter fun w => w.1 = weight).flatMap fun w =>
    List.replicate (share weight) (UInt8.ofNat w.2, log + 1 - weight)

def ofWeights (weights : List Nat) : Except Fault HuffmanTable := do
  if weights.any (· > maxLog) then throw .corrupt
  let total := weights.foldl (fun sum weight => sum + share weight) 0
  if total = 0 then throw .corrupt
  let log := highBit total + 1
  if log > maxLog then throw .corrupt
  let rest := twoTo log - total
  if rest ≠ twoTo (highBit rest) then throw .corrupt
  let all := weights ++ [highBit rest + 1]
  let ones := all.count 1
  if ones < 2 ∨ ones % 2 = 1 then throw .corrupt
  let cells := (List.range log).flatMap fun i => cellsOf log all.zipIdx (i + 1)
  pure ⟨log, cells.toArray⟩

def read (data : Array UInt8) (pos stop : Nat) : Except Fault (HuffmanTable × Nat) := do
  if stop ≤ pos then throw .truncated
  let header := byteAt data pos
  let length := if header ≥ 128 then (header - 126) / 2 else header
  if pos + 1 + length > stop then throw .truncated
  let weights ←
    if header ≥ 128 then pure (plainWeights data (pos + 1) (header - 127))
    else compressedWeights data (pos + 1) length
  pure (← ofWeights weights, pos + 1 + length)

def decodeLoop (t : HuffmanTable) : (count : Nat) → BackBits → Array UInt8 →
    Except Fault (Array UInt8)
  | 0, bits, out => if bits.finished then .ok out else .error .corrupt
  | count + 1, bits, out =>
    let (symbol, length) := t.cells.getD (bits.peek t.log) (0, 0)
    decodeLoop t count (bits.skip length) (out.push symbol)

def decodeStream (t : HuffmanTable) (data : Array UInt8) (pos length count : Nat)
    (out : Array UInt8) : Except Fault (Array UInt8) := do
  t.decodeLoop count (← BackBits.ofSection data pos length) out

def decodeFour (t : HuffmanTable) (data : Array UInt8) (pos length count : Nat) :
    Except Fault (Array UInt8) := do
  if length < 10 then throw .corrupt
  let l1 := wordAt data pos 2
  let l2 := wordAt data (pos + 2) 2
  let l3 := wordAt data (pos + 4) 2
  if l1 + l2 + l3 + 6 > length then throw .corrupt
  let quarter := (count + 3) / 4
  if 3 * quarter > count then throw .corrupt
  let out ← t.decodeStream data (pos + 6) l1 quarter #[]
  let out ← t.decodeStream data (pos + 6 + l1) l2 quarter out
  let out ← t.decodeStream data (pos + 6 + l1 + l2) l3 quarter out
  t.decodeStream data (pos + 6 + l1 + l2 + l3) (length - 6 - l1 - l2 - l3) (count - 3 * quarter) out

end HuffmanTable
end SymbolCatalog.Zstd
