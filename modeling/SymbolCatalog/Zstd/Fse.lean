import SymbolCatalog.Zstd.Bits

/-! Finite state entropy tables. A distribution gives each symbol a share of the states; a share of
-1 stands for a symbol that gets one state, from which the next one is read afresh. -/
namespace SymbolCatalog.Zstd

structure FseCell where
  symbol : Nat
  bits : Nat
  base : Nat
  deriving Inhabited, Repr

structure FseTable where
  log : Nat
  cells : Array FseCell
  deriving Inhabited, Repr

namespace FseTable

def cell (t : FseTable) (state : Nat) : FseCell := t.cells.getD state default

def constant (symbol : Nat) : FseTable := ⟨0, #[⟨symbol, 0, 0⟩]⟩

/-- The state after `pos` in the order in which shares are laid out; states from `high` on belong
to rare symbols and are left out. -/
def nextSpot (size high : Nat) : (fuel : Nat) → (pos : Nat) → Nat
  | 0, pos => pos
  | fuel + 1, pos =>
    let pos := (pos + size / 2 + size / 8 + 3) % size
    if pos < high then pos else nextSpot size high fuel pos

def spread (log : Nat) (shares : List Int) : Array Nat :=
  let size := twoTo log
  let numbered := shares.zipIdx
  let (symbols, high) := numbered.foldl (fun (symbols, high) (share, symbol) =>
    if share = -1 then (symbols.setIfInBounds (high - 1) symbol, high - 1) else (symbols, high))
    (Array.replicate size 0, size)
  (numbered.foldl (fun (acc : Array Nat × Nat) (share, symbol) =>
    (List.range share.toNat).foldl (fun (symbols, pos) _ =>
      (symbols.setIfInBounds pos symbol, nextSpot size high size pos)) acc) (symbols, 0)).1

def ofShares (log : Nat) (shares : List Int) : FseTable :=
  let counts := (shares.map fun share => if share = -1 then 1 else share.toNat).toArray
  let (cells, _) := (spread log shares).foldl (fun (cells, counts) symbol =>
    let next := counts.getD symbol 0
    let bits := log - highBit next
    (cells.push ⟨symbol, bits, next * twoTo bits - twoTo log⟩, counts.setIfInBounds symbol (next + 1)))
    ((#[] : Array FseCell), counts)
  ⟨log, cells⟩

/-- Repeat marks of two bits each, up to the first that is not full. -/
def zeroRun (data : Array UInt8) : (fuel : Nat) → (pos : Nat) → Nat × Nat
  | 0, pos => (0, pos)
  | fuel + 1, pos =>
    let n := bitsAt data pos 2
    if n = 3 then
      let (more, pos) := zeroRun data fuel (pos + 2)
      (3 + more, pos)
    else (n, pos + 2)

def readShares (data : Array UInt8) (maxSymbol : Nat) :
    (fuel : Nat) → (pos remaining : Nat) → (done : List Int) → Except Fault (List Int × Nat)
  | 0, _, _, _ => .error .corrupt
  | fuel + 1, pos, remaining, done =>
    if done.length > maxSymbol then .error .corrupt
    else
      let width := highBit remaining + 1
      let threshold := twoTo (width - 1)
      let spare := 2 * threshold - 1 - remaining
      let low := bitsAt data pos (width - 1)
      let (value, pos) :=
        if low < spare then (low, pos + width - 1)
        else
          let full := bitsAt data pos width
          (if full ≥ threshold then full - spare else full, pos + width)
      let share : Int := (value : Int) - 1
      let remaining := remaining - share.natAbs
      let (zeros, pos) := if share = 0 then zeroRun data (8 * data.size) pos else (0, pos)
      let done := List.replicate zeros 0 ++ share :: done
      if remaining ≤ 1 then
        if remaining = 1 ∧ done.length ≤ maxSymbol + 1 then .ok (done.reverse, pos)
        else .error .corrupt
      else readShares data maxSymbol fuel pos remaining done

def read (data : Array UInt8) (pos stop maxLog maxSymbol : Nat) :
    Except Fault (FseTable × Nat) := do
  if stop ≤ pos then throw .truncated
  let log := bitsAt data (8 * pos) 4 + 5
  if log > maxLog then throw .corrupt
  let (shares, bit) ← readShares data maxSymbol (maxSymbol + 2) (8 * pos + 4) (twoTo log + 1) []
  let after := (bit + 7) / 8
  if after > stop then throw .corrupt
  pure (ofShares log shares, after)

def start (t : FseTable) (bits : BackBits) : Nat × BackBits := bits.take t.log

def next (t : FseTable) (state : Nat) (bits : BackBits) : Nat × BackBits :=
  let c := t.cell state
  let (extra, bits) := bits.take c.bits
  (c.base + extra, bits)

end FseTable
end SymbolCatalog.Zstd
