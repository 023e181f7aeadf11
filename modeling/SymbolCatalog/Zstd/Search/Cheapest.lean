import SymbolCatalog.Zstd.Search.Candidates
import SymbolCatalog.Zstd.Search.Prices

/-! The cheapest way through the data. From a position with a repetition on, the cheapest way to
each following position is kept, until all ways meet or the best one is certain. Then its sequences
are taken and prices are updated. -/
namespace SymbolCatalog.Zstd.Cheapest
open Candidates (Tables Found longestPriced enough shortest)

/-- The last part of a way: a repetition and the literals after it. -/
structure Stretch where
  price : Int
  offset : Nat
  length : Nat
  literals : Nat
  recent : Recent
  deriving Inhabited

def unreachable : Int := twoTo 30

abbrev Ways := Array Stretch

structure Block where
  settings : Settings
  data : Array UInt8
  stop : Nat

structure Memory where
  tables : Tables
  prices : Prices
  deriving Inhabited

def setPrice (ways : Ways) (i : Nat) (price : Int) : Ways :=
  ways.modify i fun w => { w with price }

def offer (p : Prices) (base : Int) (r : Repeat) : (count length : Nat) → Ways → Ways
  | 0, _, ways => ways
  | count + 1, length, ways =>
    let price := base + p.repetition r.offset length
    offer p base r count (length + 1)
      (ways.modify length fun w => { w with price, offset := r.offset, length, literals := 0 })

def firstWays (b : Block) (p : Prices) (literals : Nat) (recent : Recent) (found : Found)
    (ways : Ways) : Ways × Nat :=
  let price := p.run literals
  let least := shortest b.settings
  let ways := ways.modify 0 fun w => { w with price, length := 0, literals, recent }
  let ways := (List.range (least - 1)).foldl (fun ways i =>
    ways.modify (i + 1) fun w =>
      { w with price := unreachable, length := 0, literals := literals + i + 1 }) ways
  let (ways, next) := found.foldl (fun (ways, next) r =>
    (offer p (price + p.run 0) r (r.length + 1 - next) next ways, max next (r.length + 1)))
    (ways, least)
  (setPrice ways next unreachable, next - 1)

def lengthen : (count last : Nat) → Ways → Ways
  | 0, _, ways => ways
  | count + 1, last, ways =>
    lengthen count (last + 1)
      (ways.modify (last + 1) fun w => { w with price := unreachable, literals := 1 })

def offerFrom (p : Prices) (base : Int) (pos least : Nat) (r : Repeat) : (length : Nat) →
    Ways → (last : Nat) → Ways × Nat
  | 0, ways, last => (ways, last)
  | length + 1, ways, last =>
    if length + 1 < least then (ways, last)
    else
      let i := pos + (length + 1)
      let price := base + p.repetition r.offset (length + 1)
      let old := (ways.getD i default).price
      if last < i ∨ price < old then
        let ways := lengthen (i - last) last ways
        let ways := ways.modify i fun w =>
          { w with price, offset := r.offset, length := length + 1, literals := 0 }
        offerFrom p base pos least r length ways (max last i)
      else if p.fine then offerFrom p base pos least r length ways last
      else (ways, last)

def offerAll (p : Prices) (base : Int) (pos : Nat) : (least : Nat) → List Repeat →
    Ways → (last : Nat) → Ways × Nat
  | _, [], ways, last => (ways, last)
  | least, r :: rest, ways, last =>
    let (ways, last) := offerFrom p base pos least r r.length ways last
    offerAll p base pos (r.length + 1) rest ways last

/-- Reaches a position by one more literal, if that is not dearer. With fine prices a way that is
replaced may still be continued by a literal of its own. -/
def byLiteral (b : Block) (p : Prices) (origin i : Nat) (ways : Ways) (last : Nat) : Ways × Nat :=
  let before := ways.getD (i - 1) default
  let old := ways.getD i default
  let literals := before.literals + 1
  let price := before.price + p.literal (b.data.getD (origin + i - 1) 0) + p.runStep literals
  if old.price < price then (ways, last)
  else
    let ways := ways.setIfInBounds i { before with literals, price }
    if p.fine ∧ old.literals = 0 ∧ p.runStep 1 < 0 ∧ origin + i < b.stop then
      let next := p.literal (b.data.getD (origin + i) 0)
      let own := old.price + next + p.runStep 1
      let other := price + next + p.runStep (literals + 1)
      if own < other ∧ own < (ways.getD (i + 1) default).price then
        let root := ways.getD (i - old.length) default
        let recent := root.recent.after old.offset (root.literals = 0)
        (ways.setIfInBounds (i + 1) { old with recent, literals := 1, price := own },
          max last (i + 1))
      else (ways, last)
    else (ways, last)

def settle (i : Nat) (ways : Ways) : Ways :=
  let w := ways.getD i default
  if w.literals = 0 then
    let root := ways.getD (i - w.length) default
    ways.setIfInBounds i { w with recent := root.recent.after w.offset (root.literals = 0) }
  else ways

abbrev End := Stretch × Nat

def whole (r : Repeat) : Stretch := ⟨0, r.offset, r.length, 0, (0, 0, 0)⟩

def forward (b : Block) (p : Prices) (origin : Nat) : (fuel i last : Nat) → Ways → Tables →
    End × Ways × Tables
  | 0, _, last, ways, tables => ((ways.getD last default, last), ways, tables)
  | fuel + 1, i, last, ways, tables =>
    if last < i then ((ways.getD last default, last), ways, tables)
    else
      let (ways, last) := byLiteral b p origin i ways last
      let ways := settle i ways
      let here := ways.getD i default
      if b.stop < origin + i + 8 then forward b p origin fuel (i + 1) last ways tables
      else if i = last then ((here, last), ways, tables)
      else if !p.fine && (ways.getD (i + 1) default).price ≤ here.price + 128 then
        forward b p origin fuel (i + 1) last ways tables
      else
        let (found, tables) := Candidates.find b.settings b.data b.stop tables (origin + i)
          here.recent (here.literals = 0)
        match found.back? with
        | none => forward b p origin fuel (i + 1) last ways tables
        | some r =>
          if enough b.settings < r.length ∨ longestPriced ≤ i + r.length ∨
              b.stop ≤ origin + i + r.length then
            ((whole r, i + r.length), ways, tables)
          else
            let (ways, last) :=
              offerAll p (here.price + p.run 0) i (shortest b.settings) found.toList ways last
            forward b p origin fuel (i + 1) last (setPrice ways (last + 1) unreachable) tables

def backward (ways : Ways) : (fuel i : Nat) → (offset length : Nat) → List Sequence → List Sequence
  | 0, _, _, _, rest => rest
  | fuel + 1, i, offset, length, rest =>
    let w := ways.getD i default
    let rest := ⟨w.literals, offset, length⟩ :: rest
    if w.length = 0 then rest
    else backward ways fuel (i - (w.literals + w.length)) w.offset w.length rest

def wayTo (ways : Ways) (last : End) : List Sequence × Recent :=
  let (w, stop) := last
  let i := stop - w.length - w.literals
  let sequences := backward ways (i + 1) i w.offset w.length []
  if w.literals = 0 then
    let root := ways.getD i default
    (sequences, root.recent.after w.offset (root.literals = 0))
  else (sequences, w.recent)

def take (data : Array UInt8) (sequences : List Sequence) (p : Prices) (anchor : Nat)
    (found : Array Sequence) : Prices × Nat × Array Sequence :=
  sequences.foldl (fun (p, anchor, found) q =>
    (p.count data anchor q, anchor + q.literals + q.length, found.push q)) (p, anchor, found)

structure Progress where
  anchor : Nat
  recent : Recent
  found : Array Sequence := #[]
  deriving Inhabited

def find (b : Block) : (fuel : Nat) → Memory → Ways → Progress → (pos : Nat) → Memory × Progress
  | 0, memory, _, progress, _ => (memory, progress)
  | fuel + 1, ⟨tables, p⟩, ways, ⟨anchor, recent, done⟩, pos =>
    if b.stop ≤ pos + 8 then (⟨tables, p⟩, ⟨anchor, recent, done⟩)
    else
      let literals := pos - anchor
      let (found, tables) :=
        Candidates.find b.settings b.data b.stop tables pos recent (literals = 0)
      match found.back? with
      | none => find b fuel ⟨tables, p⟩ ways ⟨anchor, recent, done⟩ (pos + 1)
      | some r =>
        let (last, ways, tables) :=
          if enough b.settings < r.length then
            let ways := ways.modify 0 fun w => { w with length := 0, literals, recent }
            ((whole r, r.length), ways, tables)
          else
            let (ways, last) := firstWays b p literals recent found ways
            forward b p pos (longestPriced + 2) 1 last ways tables
        if last.1.length = 0 then
          find b fuel ⟨tables, p⟩ ways ⟨anchor, recent, done⟩ (pos + last.2)
        else
          let (sequences, recent) := wayTo ways last
          let (p, anchor, done) := take b.data sequences p anchor done
          find b fuel ⟨tables, p.update⟩ ways ⟨anchor, recent, done⟩ (anchor + last.1.literals)

def pass (s : Settings) (data : Array UInt8) (start stop : Nat) (memory : Memory)
    (recent : Recent) : Memory × Progress :=
  let ways : Ways := Array.replicate (longestPriced + 3) ⟨0, 0, 0, 0, (0, 0, 0)⟩
  find ⟨s, data, stop⟩ (stop - start + 1) memory ways { anchor := start, recent }
    (if start = 0 then 1 else start)

/-- The sequences of a block. What was found before is known by the memory; without one, prices
start from the block itself, and the most patient strategy estimates them by a pass of its own. -/
def sequences (s : Settings) (data : Array UInt8) (start stop : Nat) (memory? : Option Memory)
    (recent : Recent) : Array Sequence × Memory × Recent :=
  let memory := match memory? with
    | some memory => { memory with prices := memory.prices.again }
    | none =>
      let tables := Tables.empty s
      let p := Prices.first (s.strategy ≠ .cheapest) data start stop
      if s.strategy = .twice ∧ 8 < stop - start then
        ⟨tables, (pass s data start stop ⟨tables, p⟩ recent).1.prices.again⟩
      else ⟨tables, p⟩
  let (memory, progress) := pass s data start stop memory recent
  (progress.found, memory, progress.recent)

end SymbolCatalog.Zstd.Cheapest
