import SymbolCatalog.Zstd.Sequence
import SymbolCatalog.Zstd.Settings
import SymbolCatalog.Zstd.Window

/-! Tables that hold many places for a key, the latest first: as chains through a table of their
own, or as rows of limited length. Of the places that are tried the one with the longest repetition
is chosen, among equals the latest. -/
namespace SymbolCatalog.Zstd

structure Repeat where
  length : Nat
  offset : Nat
  deriving Inhabited

def Repeat.none (length : Nat) : Repeat := ⟨length, 999999999⟩

def Repeat.orFrom (best : Repeat) (data : Array UInt8) (place pos stop : Nat) : Repeat :=
  if sameFour data (place + best.length - 3) (pos + best.length - 3) then
    let length := agreement data place pos stop
    if best.length < length then ⟨length, offsetOf (pos - place)⟩ else best
  else best

namespace Chain

/-- The last place of each key, for each place the one before it with the same key, and the
position up to which all are entered. Cells hold a position plus one. -/
structure Tables where
  last : Array Nat
  before : Array Nat
  entered : Nat
  deriving Inhabited

def enter (s : Settings) (data : Array UInt8) (onlyFirst : Bool) : (fuel : Nat) →
    (last before : Array Nat) → (pos : Nat) → Array Nat × Array Nat
  | 0, last, before, _ => (last, before)
  | fuel + 1, last, before, pos =>
    let key := keyAt data s.hashLog s.shortest pos
    let before := before.setIfInBounds (pos % twoTo s.chainLog) (last.getD key 0)
    let last := last.setIfInBounds key (pos + 1)
    if onlyFirst then (last, before) else enter s data onlyFirst fuel last before (pos + 1)

def follow (s : Settings) (data : Array UInt8) (pos stop : Nat) (before : Array Nat) :
    (tries cell : Nat) → Repeat → Repeat
  | 0, _, best => best
  | tries + 1, cell, best =>
    if cell ≤ s.lowest pos then best
    else
      let best := best.orFrom data (cell - 1) pos stop
      if pos + best.length = stop ∨ cell - 1 + twoTo s.chainLog ≤ pos then best
      else follow s data pos stop before tries (before.getD ((cell - 1) % twoTo s.chainLog) 0) best

def best (s : Settings) (data : Array UInt8) (stop : Nat) (onlyFirst : Bool) (tables : Tables)
    (pos : Nat) : Repeat × Tables :=
  let ⟨last, before, entered⟩ := tables
  let (last, before) := enter s data onlyFirst (pos - entered) last before entered
  let cell := last.getD (keyAt data s.hashLog s.shortest pos) 0
  (follow s data pos stop before (twoTo s.searchLog) cell (.none 3), ⟨last, before, pos⟩)

end Chain

namespace Row

structure Tables where
  rows : Array (List (Nat × Nat))
  entered : Nat
  deriving Inhabited

def rowLog (s : Settings) : Nat := max 4 (min s.searchLog 6)

def tagBits : Nat := 8

def key (s : Settings) (data : Array UInt8) (pos : Nat) : Nat × Nat :=
  let key := keyAt data (s.hashLog - rowLog s + tagBits) s.shortest pos
  (key / twoTo tagBits, key % twoTo tagBits)

def add (s : Settings) (data : Array UInt8) (rows : Array (List (Nat × Nat))) (pos : Nat) :
    Array (List (Nat × Nat)) :=
  let (row, tag) := key s data pos
  rows.modify row fun places => ((tag, pos) :: places).take (twoTo (rowLog s) - 1)

def enter (s : Settings) (data : Array UInt8) : (count : Nat) → (rows : Array (List (Nat × Nat))) →
    (pos : Nat) → Array (List (Nat × Nat))
  | 0, rows, _ => rows
  | count + 1, rows, pos => enter s data count (add s data rows pos) (pos + 1)

def longestGap : Nat := 384

def enterGap (s : Settings) (data : Array UInt8) (rows : Array (List (Nat × Nat)))
    (start stop : Nat) : Array (List (Nat × Nat)) :=
  if stop - start ≤ longestGap then enter s data (stop - start) rows start
  else enter s data 32 (enter s data 96 rows start) (stop - 32)

def tryAll (data : Array UInt8) (pos stop : Nat) : List Nat → Repeat → Repeat
  | [], best => best
  | place :: rest, best =>
    let best := best.orFrom data place pos stop
    if pos + best.length = stop then best else tryAll data pos stop rest best

def best (s : Settings) (data : Array UInt8) (stop : Nat) (skip : Bool) (tables : Tables)
    (pos : Nat) : Repeat × Tables :=
  let ⟨rows, entered⟩ := tables
  let rows := if skip then rows else enterGap s data rows entered pos
  let (row, tag) := key s data pos
  let places := ((rows.getD row []).filter fun place => place.1 = tag).map (·.2)
  let near := (places.takeWhile (s.lowest pos ≤ ·)).take (twoTo (min s.searchLog (rowLog s)))
  (tryAll data pos stop near (.none 3), ⟨add s data rows pos, pos + 1⟩)

end Row
end SymbolCatalog.Zstd
