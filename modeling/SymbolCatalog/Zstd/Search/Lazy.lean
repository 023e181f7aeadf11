import SymbolCatalog.Zstd.Search.SortedTree

/-! Searches that look for the longest repetition at a position and, with more patience, whether a
later position has a better one. -/
namespace SymbolCatalog.Zstd.Lazy

inductive Tables where
  | chain (tables : Chain.Tables)
  | row (tables : Row.Tables)
  | sorted (tables : SortedTree.Tables)
  deriving Inhabited

def chainWindow : Nat := 14

def Tables.empty (s : Settings) : Tables :=
  let last := Array.replicate (twoTo s.hashLog) 0
  let links := Array.replicate (twoTo s.chainLog) 0
  if s.strategy = .sorted then .sorted ⟨last, links, 0⟩
  else if s.windowLog ≤ chainWindow then .chain ⟨last, links, 0⟩
  else .row ⟨Array.replicate (twoTo (s.hashLog - Row.rowLog s)) [], 0⟩

def patience (s : Settings) : Nat :=
  match s.strategy with
  | .greedy => 0
  | .lazy => 1
  | _ => 2

structure Block where
  settings : Settings
  data : Array UInt8
  stop : Nat
  last : Nat

def best (b : Block) (skip : Bool) (tables : Tables) (pos : Nat) : Repeat × Tables :=
  match tables with
  | .chain t => let (r, t) := Chain.best b.settings b.data b.stop skip t pos; (r, .chain t)
  | .row t => let (r, t) := Row.best b.settings b.data b.stop skip t pos; (r, .row t)
  | .sorted t => let (r, t) := SortedTree.best b.settings b.data b.stop t pos; (r, .sorted t)

def lengthAt (b : Block) (distance pos : Nat) : Nat :=
  if 0 < distance && sameFour b.data pos (pos - distance) then
    agreement b.data (pos + 4 - distance) (pos + 4) b.stop + 4
  else 0

structure Choice where
  start : Nat
  best : Repeat

def worth (weight : Nat) (r : Repeat) : Int := (weight * r.length : Int) - highBit r.offset

/-- The better of a choice and the repetitions at a position, and whether it is a new one other
than of the last distance. The choice has an advantage. -/
def reconsider (b : Block) (skip : Bool) (near weight : Nat) (advantage : Int) (tables : Tables)
    (choice : Choice) (pos : Nat) : Choice × Bool × Tables :=
  let again := lengthAt b near pos
  let choice :=
    if 4 ≤ again ∧ worth weight choice.best + 1 < (weight * again : Int) then ⟨pos, again, 1⟩
    else choice
  let (r, tables) := best b skip tables pos
  if 4 ≤ r.length ∧ worth 4 choice.best + advantage < worth 4 r then (⟨pos, r⟩, true, tables)
  else (choice, false, tables)

def improve (b : Block) (skip : Bool) (near : Nat) : (fuel : Nat) → Tables → Choice → (pos : Nat) →
    Choice × Tables
  | 0, tables, choice, _ => (choice, tables)
  | fuel + 1, tables, choice, pos =>
    if b.last ≤ pos then (choice, tables)
    else
      let (choice, better, tables) := reconsider b skip near 3 4 tables choice (pos + 1)
      if better then improve b skip near fuel tables choice (pos + 1)
      else if patience b.settings = 2 ∧ pos + 1 < b.last then
        let (choice, better, tables) := reconsider b skip near 4 7 tables choice (pos + 2)
        if better then improve b skip near fuel tables choice (pos + 2) else (choice, tables)
      else (choice, tables)

def again (b : Block) : (fuel : Nat) → Trail → Trail
  | 0, t => t
  | fuel + 1, t =>
    let length := lengthAt b t.far t.anchor
    if t.anchor ≤ b.last ∧ 0 < length then again b fuel (t.swap.add t.anchor 1 length) else t

def take (b : Block) (t : Trail) (choice : Choice) : Trail :=
  let ⟨start, length, offset⟩ := choice
  if 3 < offset then
    let distance := offset - 3
    let back := agreementBefore b.data 0 t.anchor start (start - distance) start 0
    (t.approach distance).add (start - back) offset (back + length)
  else t.add start offset length

def longStep : Nat := 8

def find (b : Block) : (fuel : Nat) → Tables → Trail → (pos : Nat) → (skip : Bool) → Tables × Trail
  | 0, tables, t, _, _ => (tables, t)
  | fuel + 1, tables, t, pos, skip =>
    if b.last ≤ pos then (tables, t)
    else
      let repeated := lengthAt b t.near (pos + 1)
      let choice : Choice := ⟨pos + 1, repeated, 1⟩
      if 0 < repeated ∧ patience b.settings = 0 then
        let t := again b (b.stop - pos) (take b t choice)
        find b fuel tables t t.anchor false
      else
        let (r, tables) := best b skip tables pos
        let choice := if choice.best.length < r.length then ⟨pos, r⟩ else choice
        if choice.best.length < 4 then
          let step := (pos - t.anchor) / 256 + 1
          find b fuel tables t (pos + step) (longStep < step)
        else
          let (choice, tables) :=
            if patience b.settings = 0 then (choice, tables)
            else improve b skip t.near (b.stop - pos) tables choice pos
          let t := again b (b.stop - pos) (take b t choice)
          find b fuel tables t t.anchor false

def sequences (s : Settings) (data : Array UInt8) (start stop : Nat) (tables : Tables)
    (recent : Recent) : Array Sequence × Tables × Recent :=
  let pos := if start = 0 then 1 else start
  let reach := pos - s.lowest pos
  let last := match tables with
    | .row _ => stop - 16
    | _ => stop - 8
  let (tables, t) := find ⟨s, data, stop, last⟩ (stop - start + 1) tables
    (.start recent start reach) pos false
  (t.found, tables, t.finish recent reach)

end SymbolCatalog.Zstd.Lazy
