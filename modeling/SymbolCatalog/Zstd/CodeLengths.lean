import SymbolCatalog.Zstd.Huffman
import SymbolCatalog.Zstd.Shares

/-! Huffman codes for given counts: how long the code of each symbol is, with a limit to the length,
and how the lengths are described. -/
namespace SymbolCatalog.Zstd

def longestCode : Nat := 11

namespace CodeLengths

def ranked (counts : Array Nat) : Array (Nat × Nat) :=
  let used := counts.toList.zipIdx.filter fun c => c.1 ≠ 0
  (used.mergeSort fun a b => b.1 ≤ a.1).toArray

structure Growth where
  leaves : Nat
  nodes : Array Nat
  taken : Nat
  leafParents : Array Nat
  nodeParents : Array Nat

def Growth.hang (g : Growth) (ranks : Array (Nat × Nat)) : Growth × Nat :=
  let leaf := (ranks.getD (g.leaves - 1) (0, 0)).1
  if 0 < g.leaves ∧ (g.nodes.size ≤ g.taken ∨ leaf < g.nodes.getD g.taken 0) then
    ({ g with
        leaves := g.leaves - 1
        leafParents := g.leafParents.setIfInBounds (g.leaves - 1) g.nodes.size }, leaf)
  else
    ({ g with
        taken := g.taken + 1
        nodeParents := g.nodeParents.push g.nodes.size }, g.nodes.getD g.taken 0)

def grow (ranks : Array (Nat × Nat)) : (count : Nat) → Growth → Growth
  | 0, g => g
  | count + 1, g =>
    let (g, a) := g.hang ranks
    let (g, b) := g.hang ranks
    grow ranks count { g with nodes := g.nodes.push (a + b) }

def unlimited (ranks : Array (Nat × Nat)) : Array Nat :=
  let g := grow ranks (ranks.size - 1) ⟨ranks.size, #[], 0, Array.replicate ranks.size 0, #[]⟩
  let depths := (List.range g.nodeParents.size).foldr (fun i depths =>
    depths.setIfInBounds i (depths.getD (g.nodeParents.getD i 0) 0 + 1))
    (Array.replicate (g.nodes.size) 0)
  g.leafParents.map fun parent => depths.getD parent 0 + 1

/-- The last rank with each length, told by how much shorter than the limit it is. -/
abbrev Lasts := Array (Option Nat)

def lastRanks (limit : Nat) (lengths : Array Nat) (stop : Nat) : Lasts :=
  ((List.range stop).foldr (fun rank (lasts, shortest) =>
    let length := lengths.getD rank 0
    if shortest ≤ length then (lasts, shortest)
    else (lasts.setIfInBounds (limit - length) (some rank), length))
    (Array.replicate 14 none, limit)).1

/-- Which rank to lengthen, by how much shorter than the limit it is: the one whose lengthening
repays the most, unless two that repay half as much are cheaper. -/
def choose (ranks : Array (Nat × Nat)) (lasts : Lasts) : (gap : Nat) → Nat
  | 0 => 1
  | 1 => 1
  | gap + 2 =>
    match lasts.getD (gap + 2) none, lasts.getD (gap + 1) none with
    | none, _ => choose ranks lasts (gap + 1)
    | some _, none => gap + 2
    | some high, some low =>
      if (ranks.getD high (0, 0)).1 ≤ 2 * (ranks.getD low (0, 0)).1 then gap + 2
      else choose ranks lasts (gap + 1)

def present (lasts : Lasts) : (fuel gap : Nat) → Nat
  | 0, gap => gap
  | fuel + 1, gap =>
    if gap ≤ 12 ∧ (lasts.getD gap none).isNone then present lasts fuel (gap + 1) else gap

def repay (limit : Nat) (ranks : Array (Nat × Nat)) : (fuel : Nat) → (debt : Int) →
    (lengths : Array Nat) → Lasts → Int × Array Nat × Lasts
  | 0, debt, lengths, lasts => (debt, lengths, lasts)
  | fuel + 1, debt, lengths, lasts =>
    if debt ≤ 0 then (debt, lengths, lasts)
    else
      let gap := present lasts 13 (choose ranks lasts (highBit debt.toNat + 1))
      match lasts.getD gap none with
      | none => (debt, lengths, lasts)
      | some rank =>
        let lengths := lengths.modify rank (· + 1)
        let lasts :=
          if (lasts.getD (gap - 1) none).isNone then lasts.setIfInBounds (gap - 1) (some rank)
          else lasts
        let next? :=
          if rank = 0 ∨ lengths.getD (rank - 1) 0 ≠ limit - gap then none else some (rank - 1)
        repay limit ranks fuel (debt - twoTo (gap - 1)) lengths (lasts.setIfInBounds gap next?)

def shorterBelow (limit : Nat) (lengths : Array Nat) : (stop : Nat) → Nat
  | 0 => 0
  | rank + 1 => if lengths.getD rank 0 = limit then shorterBelow limit lengths rank else rank + 1

def refund (limit : Nat) : (fuel : Nat) → (excess : Nat) → (lengths : Array Nat) →
    (last? : Option Nat) → (stop : Nat) → Array Nat
  | 0, _, lengths, _, _ => lengths
  | fuel + 1, excess, lengths, last?, stop =>
    if excess = 0 then lengths
    else
      match last? with
      | none =>
        let stop := shorterBelow limit lengths stop
        refund limit fuel (excess - 1) (lengths.modify stop (· - 1)) (some stop) stop
      | some last =>
        refund limit fuel (excess - 1) (lengths.modify (last + 1) (· - 1)) (some (last + 1)) stop

def limited (limit : Nat) (ranks : Array (Nat × Nat)) (lengths : Array Nat) : Array Nat :=
  let most := lengths.back?.getD 0
  if most ≤ limit then lengths
  else
    let owed : List Int := lengths.toList.map fun length =>
      if limit < length then twoTo (most - limit) - twoTo (most - length) else 0
    let debt := owed.foldl (fun sum debt => sum + debt) (0 : Int) / twoTo (most - limit)
    let lengths := lengths.map (min · limit)
    let stop := shorterBelow limit lengths lengths.size
    let (debt, lengths, lasts) :=
      repay limit ranks (lengths.size * 13) debt lengths (lastRanks limit lengths stop)
    refund limit (-debt).toNat (-debt).toNat lengths (lasts.getD 1 none) stop

def ofCounts (limit : Nat) (counts : Array Nat) : Array Nat :=
  let ranks := ranked counts
  let lengths := limited limit ranks (unlimited ranks)
  (ranks.zip lengths).foldl (fun all (rank, length) => all.setIfInBounds rank.2 length)
    (Array.replicate counts.size 0)

def longest (lengths : Array Nat) : Nat := lengths.foldl max 0

def size (lengths counts : Array Nat) : Nat :=
  (lengths.toList.zip counts.toList).foldl (fun sum (length, count) => sum + length * count) 0 / 8

def alternate (e : FseEncoder) (symbols : List Nat) : Option (List Field) :=
  match symbols.reverse with
  | x :: y :: z :: rest =>
    let (fields, a, b) := (z :: rest).foldl (fun (fields, a, b) symbol =>
      let (next, field) := e.before symbol a
      (field :: fields, b, next)) (([] : List Field), e.last x, e.last y)
    some (fields.reverse ++ [e.first a, e.first b])
  | _ => none

def packWeights (weights : List Nat) : Option Bytes := do
  let maxWeight := weights.foldl max 0
  let counts := (List.range (maxWeight + 1)).map fun w => weights.count w
  let most := counts.foldl max 0
  guard (1 < weights.length ∧ most ≠ weights.length ∧ most ≠ 1)
  let log := suitableLog 6 weights.length maxWeight 2
  let shares ← Shares.ofCounts log weights.length false counts
  let fields ← alternate (.ofShares log shares) weights
  pure (Shares.describe log shares ++ packFields fields)

def pairWeights : List Nat → Bytes
  | [] => []
  | [a] => [UInt8.ofNat (a * 16)]
  | a :: b :: rest => UInt8.ofNat (a * 16 + b) :: pairWeights rest

def describe (lengths : Array Nat) : Option Bytes :=
  let log := longest lengths
  let weight (length : Nat) : Nat := if length = 0 then 0 else log + 1 - length
  let weights := (lengths.toList.map weight).dropLast
  let count := weights.length
  match packWeights weights with
  | some packed =>
    if 1 < packed.length ∧ packed.length < count / 2 then
      some (UInt8.ofNat packed.length :: packed)
    else plain weights count
  | none => plain weights count
where
  plain (weights : List Nat) (count : Nat) : Option Bytes :=
    if 128 < count then none else some (UInt8.ofNat (127 + count) :: pairWeights weights)

def codes (lengths : Array Nat) : Array Field :=
  let log := longest lengths
  let starts := (List.range log).foldl (fun (starts, next) i =>
      let length := log - i
      let next := next / 2
      (starts.setIfInBounds length next, next + lengths.toList.count length))
    (Array.replicate (log + 1) 0, 0)
  (lengths.foldl (fun (codes, starts) length =>
    (codes.push (starts.getD length 0, length), starts.modify length (· + 1)))
    ((#[] : Array Field), starts.1)).1

end CodeLengths
end SymbolCatalog.Zstd
