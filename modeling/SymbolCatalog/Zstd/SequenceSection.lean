import SymbolCatalog.Zstd.Codes
import SymbolCatalog.Zstd.Settings
import SymbolCatalog.Zstd.Shares

/-! The sequences of a block as they are written: how many there are, the tables for the three kinds
of codes, and one stream of bits. For each kind of codes the cheapest table is chosen. -/
namespace SymbolCatalog.Zstd.SequenceSection

def countBytes (n : Nat) : Bytes :=
  if n < 128 then Bytes.ofNatLE 1 n
  else if n < 0x7F00 then [UInt8.ofNat (n / 256 + 128), UInt8.ofNat n]
  else 255 :: Bytes.ofNatLE 2 (n - 0x7F00)

structure CodeKind where
  plain : List Int
  plainLog : Nat
  mostLog : Nat

def literalKind : CodeKind := ⟨literalShares, 6, 9⟩

def offsetKind : CodeKind := ⟨distanceShares, 5, 8⟩

def lengthKind : CodeKind := ⟨matchShares, 6, 9⟩

inductive Table where
  | plain
  | constant
  | described

def Table.mode : Table → Nat
  | .plain => 0
  | .constant => 1
  | .described => 2

def bitCost (n : Nat) : Nat :=
  match n with
  | 0 => 0
  | 1 => 2048
  | n => 2047 - (Nat.pow n 256 - 1).log2

def bitCosts : Array Nat := ((List.range 256).map bitCost).toArray

def plainCost (kind : CodeKind) (counts : List Nat) : Nat :=
  (counts.zip kind.plain).foldl (fun sum (count, share) =>
    sum + count * bitCosts.getD (share.natAbs * twoTo (8 - kind.plainLog)) 0) 0 / 256

def leastCost (counts : List Nat) (total : Nat) : Nat :=
  counts.foldl (fun sum count =>
    let share := 256 * count / total
    sum + count * bitCosts.getD (if count ≠ 0 ∧ share = 0 then 1 else share) 0) 0 / 256

def manySequences : Nat := 2048

def describedSize (kind : CodeKind) (counts : List Nat) (total : Nat) : Nat :=
  let log := suitableLog kind.mostLog total (counts.length - 1) 2
  match Shares.ofCounts log total (manySequences ≤ total) counts with
  | some shares => (Shares.describe log shares).length
  | none => 0

def choose (strategy : Strategy) (kind : CodeKind) (counts : List Nat) (total : Nat) : Table :=
  let most := counts.foldl max 0
  let known : Bool := counts.length ≤ kind.plain.length
  if most = total then
    if known ∧ total ≤ 2 then .plain else .constant
  else if strategy.rank < Strategy.lazy.rank then
    if known ∧ (total < twoTo kind.plainLog * (10 - strategy.rank) / 8 ∨
        most < total / twoTo (kind.plainLog - 1)) then .plain
    else .described
  else if known ∧ plainCost kind counts ≤
      8 * describedSize kind counts total + leastCost counts total then .plain
  else .described

structure Choice where
  table : Table
  description : Bytes
  encoder : FseEncoder

def choice (strategy : Strategy) (kind : CodeKind) (codes : List Nat) : Option Choice := do
  let largest := codes.foldl max 0
  let counts := (codes.foldl (fun (counts : Array Nat) code => counts.modify code (· + 1))
    (Array.replicate (largest + 1) 0)).toList
  let total := codes.length
  match choose strategy kind counts total with
  | .plain => pure ⟨.plain, [], .ofShares kind.plainLog kind.plain⟩
  | .constant => pure ⟨.constant, [UInt8.ofNat largest], .constant largest⟩
  | .described =>
    let log := suitableLog kind.mostLog total largest 2
    let final := codes.getLastD 0
    let spare := 1 < counts.getD final 0
    let counts := if spare then counts.modify final (· - 1) else counts
    let total := if spare then total - 1 else total
    let shares ← Shares.ofCounts log total (manySequences ≤ total) counts
    pure ⟨.described, Shares.describe log shares, .ofShares log shares⟩

structure Coded where
  literal : Nat
  offset : Nat
  length : Nat
  extra : List Field

def coded (q : Sequence) : Coded :=
  let literal := literalCode q.literals
  let offset := offsetCode q.offset
  let length := matchCode q.length
  let extra (base : Nat × Nat) (value : Nat) : Field := (value - base.1, base.2)
  ⟨literal, offset, length,
    [extra (literalCodes.getD literal (0, 0)) q.literals,
      extra (matchCodes.getD length (0, 0)) q.length, (q.offset - twoTo offset, offset)]⟩

structure Writing where
  literal : Nat
  offset : Nat
  length : Nat
  fields : List Field

/-- All fields, the last sequence first. Those of a sequence are the ways to the states after it
and its extra bits. The first states come at the end, where reading begins. -/
def fields (literal offset length : FseEncoder) (sequences : List Coded) : List Field :=
  match sequences.reverse with
  | [] => []
  | q :: rest =>
    let start : Writing :=
      ⟨literal.last q.literal, offset.last q.offset, length.last q.length, q.extra.reverse⟩
    let w := rest.foldl (fun w q =>
      let (o, fo) := offset.before q.offset w.offset
      let (m, fm) := length.before q.length w.length
      let (l, fl) := literal.before q.literal w.literal
      ⟨l, o, m, q.extra.reverse ++ fl :: fm :: fo :: w.fields⟩) start
    (literal.first w.literal :: offset.first w.offset :: length.first w.length :: w.fields).reverse

def write (strategy : Strategy) (sequences : Array Sequence) : Option Bytes := do
  let coded := sequences.toList.map coded
  let count := countBytes sequences.size
  if sequences.isEmpty then pure count
  else
    let literal ← choice strategy literalKind (coded.map (·.literal))
    let offset ← choice strategy offsetKind (coded.map (·.offset))
    let length ← choice strategy lengthKind (coded.map (·.length))
    let modes := literal.table.mode * 64 + offset.table.mode * 16 + length.table.mode * 4
    let last := [literal, offset, length].reverse.find? fun c => c.table.mode = 2
    let bits := packFields (fields literal.encoder offset.encoder length.encoder coded)
    match last with
    | some c => guard (4 ≤ c.description.length + bits.length)
    | none => pure ()
    pure (count ++ UInt8.ofNat modes ::
      (literal.description ++ offset.description ++ length.description ++ bits))

end SymbolCatalog.Zstd.SequenceSection
