import SymbolCatalog.Zstd.Search.Chain

/-! Trees of places, ordered by the bytes that follow them. Each place has two cells, for the
smaller places and for the larger ones; a cell holds a position plus two. -/
namespace SymbolCatalog.Zstd.SortedTree

def firstIndex : Nat := 2

/-- In a second cell: the place is not sorted yet, and its first cell holds the one before it. -/
def unsorted : Nat := 1

structure Descent where
  tree : Array Nat
  index : Nat
  smaller : Nat
  larger : Nat
  commonSmaller : Nat := 0
  commonLarger : Nat := 0

structure Frame where
  data : Array UInt8
  pos : Nat
  stop : Nat
  log : Nat
  floor : Nat

def Frame.cellOf (f : Frame) (index : Nat) : Nat := 2 * (index % twoTo f.log)

def frameAt (s : Settings) (data : Array UInt8) (stop pos : Nat) : Frame :=
  let log := s.chainLog - 1
  ⟨data, pos, stop, log, pos + firstIndex - (twoTo log - 1)⟩

def Descent.close (d : Descent) : Array Nat :=
  (d.tree.setIfInBounds d.smaller 0).setIfInBounds d.larger 0

/-- Puts the position at the root above the places that were there, while going down where it
belongs. `visit` sees each place with the length of its agreement, and may end the descent. -/
@[specialize] def descend {α : Type} (f : Frame) (within : Nat → Bool)
    (visit : α → (index length : Nat) → α × Bool) : (compares : Nat) → Descent → α → Array Nat × α
  | 0, d, seen => (d.close, seen)
  | compares + 1, ⟨tree, index, smaller, larger, commonSmaller, commonLarger⟩, seen =>
    let d : Descent := ⟨tree, index, smaller, larger, commonSmaller, commonLarger⟩
    if !within index then (d.close, seen)
    else
      let place := index - firstIndex
      let common := min commonSmaller commonLarger
      let length := common + agreement f.data (place + common) (f.pos + common) f.stop
      let (seen, enough) := visit seen index length
      if enough || f.pos + length = f.stop then (d.close, seen)
      else
        let cell := f.cellOf index
        if f.data.getD (place + length) 0 < f.data.getD (f.pos + length) 0 then
          let tree := tree.setIfInBounds smaller index
          if index ≤ f.floor then (tree.setIfInBounds larger 0, seen)
          else
            descend f within visit compares
              ⟨tree, tree.getD (cell + 1) 0, cell + 1, larger, length, commonLarger⟩ seen
        else
          let tree := tree.setIfInBounds larger index
          if index ≤ f.floor then (tree.setIfInBounds smaller 0, seen)
          else
            descend f within visit compares
              ⟨tree, tree.getD cell 0, smaller, cell, commonSmaller, length⟩ seen

structure Tables where
  last : Array Nat
  tree : Array Nat
  entered : Nat
  deriving Inhabited

def enter (s : Settings) (data : Array UInt8) : (count : Nat) → (last tree : Array Nat) →
    (pos : Nat) → Array Nat × Array Nat
  | 0, last, tree, _ => (last, tree)
  | count + 1, last, tree, pos =>
    let key := keyAt data s.hashLog s.shortest pos
    let cell := (frameAt s data 0 pos).cellOf (pos + firstIndex)
    let tree := tree.setIfInBounds cell (last.getD key 0)
    let tree := tree.setIfInBounds (cell + 1) unsorted
    enter s data count (last.setIfInBounds key (pos + firstIndex)) tree (pos + 1)

/-- Goes back over unsorted places, turning their second cells into the way forward. Answers with
the tree, the earliest one, where it stopped, and how many more may be sorted. -/
def unstack (f : Frame) (limit : Nat) : (candidates : Nat) → Array Nat → (index previous : Nat) →
    Array Nat × Nat × Nat × Nat
  | 0, tree, index, previous => (tree, previous, index, 0)
  | candidates + 1, tree, index, previous =>
    let cell := f.cellOf index
    if limit < index ∧ tree.getD (cell + 1) 0 = unsorted ∧ 0 < candidates then
      unstack f limit candidates (tree.setIfInBounds (cell + 1) previous) (tree.getD cell 0) index
    else (tree, previous, index, candidates + 1)

def sortStacked (s : Settings) (data : Array UInt8) (stop limit : Nat) : (fuel : Nat) →
    Array Nat → (index compares : Nat) → Array Nat
  | 0, tree, _, _ => tree
  | fuel + 1, tree, index, compares =>
    if index = 0 then tree
    else
      let pos := index - firstIndex
      let f := { frameAt s data stop pos with floor := limit }
      let cell := f.cellOf index
      let next := tree.getD (cell + 1) 0
      let candidate := tree.getD cell 0
      let (tree, _) := descend f (s.lowest pos + firstIndex < ·) (fun seen _ _ => (seen, false))
        compares ⟨tree, candidate, cell, cell + 1, 0, 0⟩ ()
      sortStacked s data stop limit fuel tree next (compares + 1)

abbrev Seen := Repeat × Nat

def prefer (f : Frame) (seen : Seen) (index length : Nat) : Seen × Bool :=
  let (best, reach) := seen
  if best.length < length then
    let reach := if reach < index + length then index + length else reach
    let distance := f.pos + firstIndex - index
    let gain : Int := 4 * ((length : Int) - best.length)
    let loss : Int := (highBit (distance + 1) : Int) - highBit best.offset
    ((if loss < gain then ⟨length, offsetOf distance⟩ else best, reach), false)
  else (seen, false)

def best (s : Settings) (data : Array UInt8) (stop : Nat) (tables : Tables) (pos : Nat) :
    Repeat × Tables :=
  if pos < tables.entered then (.none 0, tables)
  else
    let ⟨last, tree, entered⟩ := tables
    let (last, tree) := enter s data (pos - entered) last tree entered
    let f := frameAt s data stop pos
    let key := keyAt data s.hashLog s.shortest pos
    let index := pos + firstIndex
    let low := s.lowest pos + firstIndex
    let limit := max f.floor low
    let tries := twoTo s.searchLog
    let first := last.getD key 0
    let (tree, stacked, below, candidates) := unstack f limit tries tree first 0
    let belowCell := f.cellOf below
    let tree :=
      if limit < below ∧ tree.getD (belowCell + 1) 0 = unsorted then
        (tree.setIfInBounds belowCell 0).setIfInBounds (belowCell + 1) 0
      else tree
    let tree := sortStacked s data stop limit tries tree stacked candidates
    let cell := f.cellOf index
    let (tree, best, reach) := descend f (low < ·) (prefer f) tries
      ⟨tree, first, cell, cell + 1, 0, 0⟩ (.none 0, index + 8 + 1)
    (best, ⟨last.setIfInBounds key index, tree, reach - 8 - firstIndex⟩)

end SymbolCatalog.Zstd.SortedTree
