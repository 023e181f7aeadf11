import SymbolCatalog.Zstd.Sequence
import SymbolCatalog.Zstd.Settings
import SymbolCatalog.Zstd.Window

/-! A quick search with two tables: one holds the last place of each key of eight bytes, the other
of each key of few bytes. A long repetition is preferred, also one that begins a position later.
Cells hold a position plus one. -/
namespace SymbolCatalog.Zstd.Double

structure Tables where
  long : Array Nat
  short : Array Nat
  deriving Inhabited

structure Block where
  data : Array UInt8
  stop : Nat
  low : Nat
  longLog : Nat
  shortLog : Nat
  width : Nat

namespace Block

def longKey (b : Block) (pos : Nat) : Nat := keyAt b.data b.longLog 8 pos

def shortKey (b : Block) (pos : Nat) : Nat := keyAt b.data b.shortLog b.width pos

def repeatsLong (b : Block) (cell pos : Nat) : Bool :=
  b.low < cell && word8 b.data (cell - 1) == word8 b.data pos

def repeatsShort (b : Block) (cell pos : Nat) : Bool :=
  b.low < cell && sameFour b.data (cell - 1) pos

end Block

inductive Hit where
  | again (pos : Nat)
  | earlier (pos place length : Nat)

def patience : Nat := 256

def better (b : Block) (pos shortCell next longCell : Nat) : Hit :=
  let length := agreement b.data (shortCell + 3) (pos + 4) b.stop + 4
  if b.repeatsLong longCell next then
    let long := agreement b.data (longCell + 7) (next + 8) b.stop + 8
    if length < long then .earlier next (longCell - 1) long
    else .earlier pos (shortCell - 1) length
  else .earlier pos (shortCell - 1) length

def scan (b : Block) (near : Nat) : (fuel : Nat) → Tables →
    (pos next step stretch longKey longCell : Nat) → Tables × Option (Hit × Nat)
  | 0, tables, _, _, _, _, _, _ => (tables, none)
  | fuel + 1, ⟨long, short⟩, pos, next, step, stretch, longKey, longCell =>
    let shortKey := b.shortKey pos
    let shortCell := short.getD shortKey 0
    let long := long.setIfInBounds longKey (pos + 1)
    let short := short.setIfInBounds shortKey (pos + 1)
    if 0 < near && sameFour b.data (pos + 1 - near) (pos + 1) then
      (⟨long, short⟩, some (.again (pos + 1), pos))
    else
      let nextKey := b.longKey next
      if b.repeatsLong longCell pos then
        let long := if step < 4 then long.setIfInBounds nextKey (next + 1) else long
        let length := agreement b.data (longCell + 7) (pos + 8) b.stop + 8
        (⟨long, short⟩, some (.earlier pos (longCell - 1) length, pos))
      else
        let nextCell := long.getD nextKey 0
        if b.repeatsShort shortCell pos then
          let long := if step < 4 then long.setIfInBounds nextKey (next + 1) else long
          (⟨long, short⟩, some (better b pos shortCell next nextCell, pos))
        else
          let longer := stretch ≤ next
          let step := if longer then step + 1 else step
          let stretch := if longer then stretch + patience else stretch
          if next + step + 8 ≤ b.stop then
            scan b near fuel ⟨long, short⟩ next (next + step) step stretch nextKey nextCell
          else (⟨long, short⟩, none)

/-- Takes repetitions at the distance before the last one as long as they follow directly. -/
def again (b : Block) : (fuel : Nat) → Tables → Trail → Tables × Trail
  | 0, tables, t => (tables, t)
  | fuel + 1, ⟨long, short⟩, t =>
    let pos := t.anchor
    if pos + 8 ≤ b.stop ∧ 0 < t.far ∧ sameFour b.data pos (pos - t.far) then
      let length := agreement b.data (pos + 4 - t.far) (pos + 4) b.stop + 4
      let long := long.setIfInBounds (b.longKey pos) (pos + 1)
      let short := short.setIfInBounds (b.shortKey pos) (pos + 1)
      again b fuel ⟨long, short⟩ (t.swap.add pos 1 length)
    else (⟨long, short⟩, t)

def take (b : Block) (t : Trail) : Hit → Trail
  | .again pos => t.add pos 1 (agreement b.data (pos + 4 - t.near) (pos + 4) b.stop + 4)
  | .earlier pos place length =>
    let back := agreementBefore b.data b.low t.anchor pos place pos 0
    (t.approach (pos - place)).add (pos - back) (offsetOf (pos - place)) (back + length)

def enter (b : Block) (tables : Tables) (origin stop : Nat) : Tables :=
  let ⟨long, short⟩ := tables
  let long := long.setIfInBounds (b.longKey (origin + 2)) (origin + 3)
  let long := long.setIfInBounds (b.longKey (stop - 2)) (stop - 1)
  let short := short.setIfInBounds (b.shortKey (origin + 2)) (origin + 3)
  ⟨long, short.setIfInBounds (b.shortKey (stop - 1)) stop⟩

def find (b : Block) : (fuel : Nat) → Tables → Trail → (pos : Nat) → Tables × Trail
  | 0, tables, t, _ => (tables, t)
  | fuel + 1, ⟨long, short⟩, t, pos =>
    if b.stop < pos + 1 + 8 then (⟨long, short⟩, t)
    else
      let key := b.longKey pos
      let cell := long.getD key 0
      let (tables, hit?) :=
        scan b t.near (b.stop - pos) ⟨long, short⟩ pos (pos + 1) 1 (pos + patience) key cell
      match hit? with
      | none => (tables, t)
      | some (hit, origin) =>
        let t := take b t hit
        if t.anchor + 8 ≤ b.stop then
          let (tables, t) := again b (b.stop - t.anchor) (enter b tables origin t.anchor) t
          find b fuel tables t t.anchor
        else find b fuel tables t t.anchor

def sequences (s : Settings) (data : Array UInt8) (start stop : Nat) (tables : Tables)
    (recent : Recent) : Array Sequence × Tables × Recent :=
  let low := s.lowest stop
  let pos := if start = low then start + 1 else start
  let reach := pos - s.lowest pos
  let b : Block := ⟨data, stop, low, s.hashLog, s.chainLog, s.shortest⟩
  let (tables, t) := find b (stop - start + 1) tables (.start recent start reach) pos
  (t.found, tables, t.finish recent reach)

end SymbolCatalog.Zstd.Double
