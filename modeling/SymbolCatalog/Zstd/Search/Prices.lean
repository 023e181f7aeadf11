import SymbolCatalog.Zstd.Codes

/-! What it costs to write literals and repetitions, estimated from how often their codes were used
so far. A price is a number of bits times 256. -/
namespace SymbolCatalog.Zstd

structure Usage where
  counts : Array Nat
  sum : Nat
  deriving Inhabited

namespace Usage

def ofCounts (counts : Array Nat) : Usage := ⟨counts, counts.foldl (· + ·) 0⟩

def count (u : Usage) (symbol : Nat) : Nat := u.counts.getD symbol 0

def use (u : Usage) (symbol amount : Nat) : Usage :=
  ⟨u.counts.modify symbol (· + amount), u.sum + amount⟩

def reduce (u : Usage) (log : Nat) : Usage :=
  let factor := u.sum / twoTo log
  if factor ≤ 1 then u else ofCounts (u.counts.map fun n => n / twoTo (highBit factor) + 1)

end Usage

def weight (fine : Bool) (count : Nat) : Nat :=
  let n := count + 1
  let log := highBit n
  if fine then log * 256 + n * 256 / twoTo log else log * 256

structure Prices where
  fine : Bool
  literals : Usage
  runs : Usage
  lengths : Usage
  offsets : Usage
  literalBase : Nat := 0
  runBase : Nat := 0
  lengthBase : Nat := 0
  offsetBase : Nat := 0
  deriving Inhabited

namespace Prices

def update (p : Prices) : Prices :=
  { p with
    literalBase := weight p.fine p.literals.sum
    runBase := weight p.fine p.runs.sum
    lengthBase := weight p.fine p.lengths.sum
    offsetBase := weight p.fine p.offsets.sum }

def first (fine : Bool) (data : Array UInt8) (start stop : Nat) : Prices :=
  let counts := (data.extract start stop).foldl (fun counts b => counts.modify b.toNat (· + 1))
    (Array.replicate 256 0)
  update
    { fine
      literals := .ofCounts (counts.map fun n => (if n = 0 then 0 else 1) + n / 256)
      runs := .ofCounts ((Array.replicate 36 1).setIfInBounds 0 4 |>.setIfInBounds 1 2)
      lengths := .ofCounts (Array.replicate 53 1)
      offsets := .ofCounts
        (#[6, 2, 1, 1, 2, 3, 4, 4, 4, 3, 2] ++ Array.replicate 21 1) }

def again (p : Prices) : Prices :=
  update
    { p with
      literals := p.literals.reduce 12
      runs := p.runs.reduce 11
      lengths := p.lengths.reduce 11
      offsets := p.offsets.reduce 11 }

def literal (p : Prices) (byte : UInt8) : Int :=
  p.literalBase - min (weight p.fine (p.literals.count byte.toNat)) (p.literalBase - 256)

def code (p : Prices) (base : Nat) (usage : Usage) (symbol extra : Nat) : Int :=
  (extra * 256 + base : Int) - weight p.fine (usage.count symbol)

def run (p : Prices) (literals : Nat) : Int :=
  let most := maxBlock - 1
  let code := literalCode (min literals most)
  p.code p.runBase p.runs code (literalExtra code) + if most < literals then 256 else 0

def runStep (p : Prices) (literals : Nat) : Int := p.run literals - p.run (literals - 1)

/-- The price of a repetition; rough prices disfavour far places. -/
def repetition (p : Prices) (offset length : Nat) : Int :=
  let code := offsetCode offset
  let far := if !p.fine && 20 ≤ code then (code - 19) * 2 * 256 else 0
  let lengthCode := matchCode length
  p.code p.offsetBase p.offsets code code + (far : Nat) +
    p.code p.lengthBase p.lengths lengthCode (matchExtra lengthCode) + (256 / 5 : Nat)

def count (p : Prices) (data : Array UInt8) (pos : Nat) (q : Sequence) : Prices :=
  { p with
    literals := (data.extract pos (pos + q.literals)).foldl (fun u b => u.use b.toNat 2) p.literals
    runs := p.runs.use (literalCode q.literals) 1
    lengths := p.lengths.use (matchCode q.length) 1
    offsets := p.offsets.use (offsetCode q.offset) 1 }

end Prices
end SymbolCatalog.Zstd
