import SymbolCatalog.Zstd.Fields
import SymbolCatalog.Zstd.Fse

/-! Distributions for finite state entropy tables: how many states to use, how they are shared out
among symbols by their counts, how a distribution is described, and how symbols are encoded by it.
-/
namespace SymbolCatalog.Zstd

/-- The fewest states, as a logarithm, that can hold a share for each symbol. -/
def leastLog (total maxSymbol : Nat) : Nat := min (highBit total + 1) (highBit maxSymbol + 2)

/-- The number of states for a number of symbols, as a logarithm: not more than `most`, and by
`margin` bits less than the number of symbols has, unless it has no more than these. -/
def suitableLog (most total maxSymbol margin : Nat) : Nat :=
  let room := highBit (total - 1)
  let log := if room < margin then most else min most (room - margin)
  min (max (max log (leastLog total maxSymbol)) 5) 12

namespace Shares

def roundUpFrom : Array Nat := #[0, 473195, 504333, 520860, 550000, 700000, 750000, 830000]

def proportional (log total : Nat) (rare : Int) (count : Nat) : Int :=
  if count = 0 then 0
  else if count ≤ total / twoTo log then rare
  else
    let scale := 62 - log
    let exact := count * (twoTo 62 / total)
    let share := exact / twoTo scale
    if share < 8 then
      let rest := exact - share * twoTo scale
      if twoTo (scale - 20) * roundUpFrom.getD share 0 < rest then (share + 1 : Nat)
      else (share : Nat)
    else share

def largest (log total : Nat) (counts : List Nat) (shares : List Int) : Nat :=
  ((counts.zip shares).zipIdx.foldl (fun (best : Nat × Int) ((count, share), i) =>
    if total / twoTo log < count ∧ best.2 < share then (i, share) else best) (0, 0)).1

def adjust (shares : List Int) (i : Nat) (amount : Int) : List Int := shares.modify i (· + amount)

def dealOut : (fuel amount i : Nat) → Array Int → Array Int
  | 0, _, _, shares => shares
  | fuel + 1, amount, i, shares =>
    if amount = 0 then shares
    else
      let next := (i + 1) % shares.size
      if 0 < shares.getD i 0 then dealOut fuel (amount - 1) next (shares.modify i (· + 1))
      else dealOut fuel amount next shares

def spreadRest (log rest free : Nat) : List (Nat × Option Int) → (sum : Nat) → Option (List Int)
  | [], _ => some []
  | (_, some share) :: more, sum => (spreadRest log rest free more sum).map (share :: ·)
  | (count, none) :: more, sum => do
    let scale := 62 - log
    let step := (twoTo scale * free + (twoTo (scale - 1) - 1)) / rest
    let stop := sum + count * step
    let share := stop / twoTo scale - sum / twoTo scale
    guard (0 < share)
    pure ((share : Int) :: (← spreadRest log rest free more stop))

/-- Shares for counts of which many are small: these get one state each, before the others divide
what is left. -/
def divided (log total : Nat) (rare : Int) (counts : List Nat) : Option (List Int) :=
  let settle (least : Nat) (entry : Nat × Option Int) : Nat × Option Int :=
    if entry.2.isNone ∧ entry.1 ≤ least then (entry.1, some 1) else entry
  let small := total * 3 / twoTo (log + 1)
  let start := counts.map fun count =>
    (count, if count = 0 then some (0 : Int)
      else if count ≤ total / twoTo log then some rare
      else if count ≤ small then some 1
      else none)
  let settled (entries : List (Nat × Option Int)) : Nat :=
    (entries.filter fun e => e.2.isSome ∧ e.2 ≠ some 0).length
  let left (entries : List (Nat × Option Int)) : Nat :=
    (entries.filter fun e => e.2.isNone).foldl (fun sum e => sum + e.1) 0
  let free := twoTo log - settled start
  if free = 0 then some (start.map fun e => e.2.getD 0)
  else
    let entries :=
      if small < left start / free then start.map (settle (left start * 3 / (free * 2))) else start
    let free := twoTo log - settled entries
    let shares := entries.map fun e => e.2.getD 0
    if settled entries = counts.length then
      let top := (counts.zipIdx.foldl (fun (best : Nat × Nat) (count, i) =>
        if best.2 < count then (i, count) else best) (0, 0)).1
      some (adjust shares top free)
    else if left entries = 0 then
      some (dealOut (twoTo log * (counts.length + 1)) free 0 shares.toArray).toList
    else spreadRest log (left entries) free entries (twoTo (62 - log - 1) - 1)

def ofCounts (log total : Nat) (markRare : Bool) (counts : List Nat) : Option (List Int) :=
  let rare : Int := if markRare then -1 else 1
  let shares := counts.map (proportional log total rare)
  let used : Nat := shares.foldl (fun sum share => sum + share.natAbs) 0
  let top := largest log total counts shares
  let left : Int := twoTo log - used
  if (shares.getD top 0) / 2 ≤ -left then divided log total rare counts
  else some (adjust shares top left)

def zeroMarks : (fuel count : Nat) → List Field
  | 0, _ => []
  | fuel + 1, count => if 3 ≤ count then (3, 2) :: zeroMarks fuel (count - 3) else [(count, 2)]

def fields : (fuel : Nat) → (remaining : Nat) → (afterZero : Bool) → List Int → List Field
  | 0, _, _, _ => []
  | _ + 1, _, _, [] => []
  | fuel + 1, remaining, afterZero, share :: rest =>
    if remaining ≤ 1 then []
    else if afterZero then
      let zeros := ((share :: rest).takeWhile (· = 0)).length
      zeroMarks (zeros + 1) zeros ++ fields fuel remaining false ((share :: rest).drop zeros)
    else
      let width := highBit remaining + 1
      let threshold := twoTo (width - 1)
      let spare := 2 * threshold - 1 - remaining
      let value := (share + 1).toNat
      let value := if threshold ≤ value then value + spare else value
      (value, if value < spare then width - 1 else width) ::
        fields fuel (remaining - share.natAbs) (share = 0) rest

def describe (log : Nat) (shares : List Int) : Bytes :=
  packBits ((log - 5, 4) :: fields (2 * shares.length + 1) (twoTo log + 1) false shares)

end Shares

structure FseEncoder where
  log : Nat
  states : Array (Array Nat)
  deriving Inhabited

namespace FseEncoder

def ofShares (log : Nat) (shares : List Int) : FseEncoder :=
  let states := (FseTable.spread log shares).zipIdx.foldl (fun states (symbol, state) =>
    states.modify symbol (·.push (twoTo log + state))) (Array.replicate shares.length #[])
  ⟨log, states⟩

def constant (symbol : Nat) : FseEncoder :=
  ⟨0, (Array.replicate (symbol + 1) #[]).setIfInBounds symbol #[1]⟩

def last (e : FseEncoder) (symbol : Nat) : Nat := (e.states.getD symbol #[]).getD 0 (twoTo e.log)

def before (e : FseEncoder) (symbol state : Nat) : Nat × Field :=
  let states := e.states.getD symbol #[]
  let share := states.size
  let most := if share ≤ 1 then e.log else e.log - highBit (share - 1)
  let bits := if share * twoTo most ≤ state then most else most - 1
  (states.getD (state / twoTo bits - share) (twoTo e.log), state % twoTo bits, bits)

def first (e : FseEncoder) (state : Nat) : Field := (state % twoTo e.log, e.log)

end FseEncoder
end SymbolCatalog.Zstd
