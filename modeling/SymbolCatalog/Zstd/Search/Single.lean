import SymbolCatalog.Zstd.Sequence
import SymbolCatalog.Zstd.Settings
import SymbolCatalog.Zstd.Window

/-! The quickest search: one table holds the last place of each key. Positions are visited in pairs,
and pairs lie farther apart the longer nothing is found. Cells hold a position plus one. -/
namespace SymbolCatalog.Zstd.Single

structure Block where
  data : Array UInt8
  stop : Nat
  low : Nat
  log : Nat
  width : Nat

namespace Block

def key (b : Block) (pos : Nat) : Nat := keyAt b.data b.log b.width pos

def repeats (b : Block) (cell pos : Nat) : Bool := b.low < cell && sameFour b.data (cell - 1) pos

end Block

inductive Hit where
  | again (pos : Nat)
  | earlier (pos place : Nat)

/-- The positions that are looked at together, and how far the next ones are. -/
structure Front where
  p0 : Nat
  p1 : Nat
  p2 : Nat
  p3 : Nat
  key0 : Nat
  key1 : Nat
  cell : Nat
  step : Nat
  stretch : Nat

def firstStep : Nat := 2

def patience : Nat := 128

def scan (b : Block) (near : Nat) : (fuel : Nat) → Array Nat → Front →
    Array Nat × Option (Hit × Nat)
  | 0, table, _ => (table, none)
  | fuel + 1, table, f =>
    let table := table.setIfInBounds f.key0 (f.p0 + 1)
    if 0 < near && sameFour b.data (f.p2 - near) f.p2 then
      (table.setIfInBounds f.key1 (f.p1 + 1), some (.again f.p2, f.p0))
    else if b.repeats f.cell f.p0 then
      (table.setIfInBounds f.key1 (f.p1 + 1), some (.earlier f.p0 (f.cell - 1), f.p0))
    else
      let cell := table.getD f.key1 0
      let key2 := b.key f.p2
      let table := table.setIfInBounds f.key1 (f.p1 + 1)
      if b.repeats cell f.p1 then
        let table := if f.step ≤ 4 then table.setIfInBounds key2 (f.p2 + 1) else table
        (table, some (.earlier f.p1 (cell - 1), f.p1))
      else
        let next := table.getD key2 0
        let p2 := f.p2 + f.step
        let p3 := f.p3 + f.step
        let longer := f.stretch ≤ p2
        if p3 + 8 < b.stop then
          scan b near fuel table
            { p0 := f.p2, p1 := f.p3, p2, p3, key0 := key2, key1 := b.key f.p3, cell := next
              step := if longer then f.step + 1 else f.step
              stretch := if longer then f.stretch + patience else f.stretch }
        else (table, none)

def again (b : Block) : (fuel : Nat) → Array Nat → Trail → Array Nat × Trail
  | 0, table, t => (table, t)
  | fuel + 1, table, t =>
    let pos := t.anchor
    if pos + 8 ≤ b.stop ∧ 0 < t.far ∧ sameFour b.data pos (pos - t.far) then
      let length := agreement b.data (pos + 4 - t.far) (pos + 4) b.stop + 4
      again b fuel (table.setIfInBounds (b.key pos) (pos + 1)) (t.swap.add pos 1 length)
    else (table, t)

def take (b : Block) (t : Trail) : Hit → Trail
  | .again pos =>
    let back := if sameByte b.data (pos - 1) (pos - t.near - 1) then 1 else 0
    t.add (pos - back) 1 (back + 4 + agreement b.data (pos + 4 - t.near) (pos + 4) b.stop)
  | .earlier pos place =>
    let back := agreementBefore b.data b.low t.anchor pos place pos 0
    (t.approach (pos - place)).add (pos - back) (offsetOf (pos - place))
      (back + 4 + agreement b.data (place + 4) (pos + 4) b.stop)

def find (b : Block) : (fuel : Nat) → Array Nat → Trail → (pos : Nat) → Array Nat × Trail
  | 0, table, t, _ => (table, t)
  | fuel + 1, table, t, pos =>
    let p2 := pos + firstStep
    if b.stop ≤ p2 + 1 + 8 then (table, t)
    else
      let key0 := b.key pos
      let (table, hit?) := scan b t.near (b.stop - pos) table
        { p0 := pos, p1 := pos + 1, p2, p3 := p2 + 1, key0, key1 := b.key (pos + 1)
          cell := table.getD key0 0, step := firstStep, stretch := pos + patience }
      match hit? with
      | none => (table, t)
      | some (hit, origin) =>
        let t := take b t hit
        if t.anchor + 8 ≤ b.stop then
          let table := table.setIfInBounds (b.key (origin + 2)) (origin + 3)
          let table := table.setIfInBounds (b.key (t.anchor - 2)) (t.anchor - 1)
          let (table, t) := again b (b.stop - t.anchor) table t
          find b fuel table t t.anchor
        else find b fuel table t t.anchor

def sequences (s : Settings) (data : Array UInt8) (start stop : Nat) (table : Array Nat)
    (recent : Recent) : Array Sequence × Array Nat × Recent :=
  let low := s.lowest stop
  let pos := if start = low then start + 1 else start
  let reach := pos - s.lowest pos
  let b : Block := ⟨data, stop, low, s.hashLog, s.shortest⟩
  let (table, t) := find b (stop - start + 1) table (.start recent start reach) pos
  (t.found, table, t.finish recent reach)

end SymbolCatalog.Zstd.Single
