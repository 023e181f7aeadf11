import SymbolCatalog.Zstd.Search.SortedTree

/-! All repetitions at a position that are worth a price: each is longer than those before it, which
have nearer places. -/
namespace SymbolCatalog.Zstd.Candidates
open SortedTree (firstIndex Frame frameAt descend)

structure Tables where
  three : Array Nat
  last : Array Nat
  tree : Array Nat
  enteredThree : Nat
  entered : Nat
  deriving Inhabited

def threeLog (s : Settings) : Nat := if s.shortest = 3 then min s.windowLog 17 else 0

def Tables.empty (s : Settings) : Tables :=
  { three := Array.replicate (twoTo (threeLog s)) 0
    last := Array.replicate (twoTo s.hashLog) 0
    tree := Array.replicate (twoTo s.chainLog) 0
    enteredThree := 0, entered := 0 }

def longestPriced : Nat := 4096

def enough (s : Settings) : Nat := min s.target (longestPriced - 1)

def shortest (s : Settings) : Nat := if s.shortest = 3 then 3 else 4

/-- Sorts a position in. Answers with how many positions are done: those in a long repetition of
itself are left out. -/
def sortIn (s : Settings) (data : Array UInt8) (stop target : Nat) (last tree : Array Nat)
    (pos : Nat) : Array Nat × Array Nat × Nat :=
  let f := frameAt s data stop pos
  let key := keyAt data s.hashLog s.shortest pos
  let index := pos + firstIndex
  let low := s.lowest target + firstIndex
  let cell := f.cellOf index
  let note (seen : Nat × Nat) (place length : Nat) : (Nat × Nat) × Bool :=
    let (best, reach) := seen
    if best < length then ((length, max reach (place + length)), false) else (seen, false)
  let (tree, best, reach) := descend f (low ≤ ·) note (twoTo s.searchLog)
    ⟨tree, last.getD key 0, cell, cell + 1, 0, 0⟩ (8, index + 8 + 1)
  let skipped := if 384 < best then min 192 (best - 384) else 0
  (last.setIfInBounds key index, tree, max skipped (reach - (index + 8)))

def sortUpTo (s : Settings) (data : Array UInt8) (stop target : Nat) : (fuel : Nat) →
    (last tree : Array Nat) → (pos : Nat) → Array Nat × Array Nat
  | 0, last, tree, _ => (last, tree)
  | fuel + 1, last, tree, pos =>
    if target ≤ pos then (last, tree)
    else
      let (last, tree, done) := sortIn s data stop target last tree pos
      sortUpTo s data stop target fuel last tree (pos + done)

abbrev Found := Array Repeat

def longest (s : Settings) (found : Found) : Nat :=
  match found.back? with
  | some r => r.length
  | none => shortest s - 1

def lengthAt (s : Settings) (data : Array UInt8) (stop distance pos : Nat) : Nat :=
  if distance = 0 ∨ pos < distance ∨ pos - distance < s.lowest pos then 0
  else
    let equal :=
      if shortest s = 3 then sameThree data pos (pos - distance)
      else sameFour data pos (pos - distance)
    if equal then
      agreement data (pos + shortest s - distance) (pos + shortest s) stop + shortest s
    else 0

def addRecent (s : Settings) (data : Array UInt8) (stop pos : Nat) : (distances : List Nat) →
    (offset : Nat) → Found → Found × Bool
  | [], _, found => (found, false)
  | distance :: rest, offset, found =>
    let length := lengthAt s data stop distance pos
    if longest s found < length then
      let found := found.push ⟨length, offset⟩
      if enough s < length ∨ pos + length = stop then (found, true)
      else addRecent s data stop pos rest (offset + 1) found
    else addRecent s data stop pos rest (offset + 1) found

def named (recent : Recent) (bare : Bool) : List Nat :=
  let (r1, r2, r3) := recent
  if bare then [r2, r3, r1 - 1] else [r1, r2, r3]

def enterThree (s : Settings) (data : Array UInt8) : (count : Nat) → (three : Array Nat) →
    (pos : Nat) → Array Nat
  | 0, three, _ => three
  | count + 1, three, pos =>
    enterThree s data count
      (three.setIfInBounds (keyOfThree data (threeLog s) pos) (pos + firstIndex)) (pos + 1)

def ofThree (s : Settings) (data : Array UInt8) (stop pos : Nat) (three : Array Nat) : Found :=
  let index := three.getD (keyOfThree data (threeLog s) pos) 0
  let place := index - firstIndex
  if firstIndex + s.lowest pos ≤ index ∧ pos - place < twoTo 18 then
    let length := agreement data place pos stop
    if 3 ≤ length then #[⟨length, offsetOf (pos - place)⟩] else #[]
  else #[]

def addLonger (s : Settings) (f : Frame) (seen : Found × Nat) (index length : Nat) :
    (Found × Nat) × Bool :=
  let (found, reach) := seen
  if longest s found < length then
    ((found.push ⟨length, offsetOf (f.pos + firstIndex - index)⟩, max reach (index + length)),
      longestPriced < length)
  else ((found, reach), false)

def atPosition (s : Settings) (data : Array UInt8) (stop : Nat) (tables : Tables) (pos : Nat)
    (recent : Recent) (bare : Bool) : Found × Tables :=
  let ⟨three, last, tree, enteredThree, entered⟩ := tables
  let (found, done) := addRecent s data stop pos (named recent bare) 1 #[]
  if done then (found, ⟨three, last, tree, enteredThree, entered⟩)
  else
    let wanted := s.shortest = 3 ∧ found.isEmpty
    let three := if wanted then enterThree s data (pos - enteredThree) three enteredThree else three
    let enteredThree := if wanted then pos else enteredThree
    let found := if wanted then ofThree s data stop pos three else found
    let length := longest s found
    if wanted ∧ ¬ found.isEmpty ∧ (enough s < length ∨ pos + length = stop) then
      (found, ⟨three, last, tree, enteredThree, pos + 1⟩)
    else
      let f := frameAt s data stop pos
      let key := keyAt data s.hashLog s.shortest pos
      let index := pos + firstIndex
      let low := s.lowest pos + firstIndex
      let cell := f.cellOf index
      let (tree, found, reach) := descend f (low ≤ ·) (addLonger s f) (twoTo s.searchLog)
        ⟨tree, last.getD key 0, cell, cell + 1, 0, 0⟩ (found, index + 8 + 1)
      (found, ⟨three, last.setIfInBounds key index, tree, enteredThree, reach - 8 - firstIndex⟩)

def find (s : Settings) (data : Array UInt8) (stop : Nat) (tables : Tables) (pos : Nat)
    (recent : Recent) (bare : Bool) : Found × Tables :=
  if pos < tables.entered then (#[], tables)
  else
    let ⟨three, last, tree, enteredThree, entered⟩ := tables
    let (last, tree) := sortUpTo s data stop pos (pos - entered) last tree entered
    atPosition s data stop ⟨three, last, tree, enteredThree, pos⟩ pos recent bare

end SymbolCatalog.Zstd.Candidates
