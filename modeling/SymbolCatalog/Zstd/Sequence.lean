/-! Sequences, into which data is cut: some literals, and then a part that stood before. How far
before is told by an offset, which either names one of the last three distances or gives a new one.
-/
namespace SymbolCatalog.Zstd

abbrev Recent := Nat × Nat × Nat

structure Sequence where
  literals : Nat
  /-- A recent distance by its number, 1 to 3, or three more than a distance. -/
  offset : Nat
  length : Nat
  deriving DecidableEq, Repr, Inhabited

def offsetOf (distance : Nat) : Nat := distance + 3

/-- The recent distances after a repetition; it is bare if it comes without literals. Then the
numbers shift by one, and the last one means one less than the latest distance. -/
def Recent.after (recent : Recent) (offset : Nat) (bare : Bool) : Recent :=
  let (r1, r2, r3) := recent
  if 3 < offset then (offset - 3, r1, r2)
  else
    match offset - 1 + bare.toNat with
    | 0 => recent
    | 1 => (r2, r1, r3)
    | 2 => (r3, r1, r2)
    | _ => (r1 - 1, r1, r2)

structure Trail where
  anchor : Nat
  near : Nat
  far : Nat
  found : Array Sequence := #[]
  deriving Inhabited

namespace Trail

def add (t : Trail) (pos offset length : Nat) : Trail :=
  { t with anchor := pos + length, found := t.found.push ⟨pos - t.anchor, offset, length⟩ }

def approach (t : Trail) (distance : Nat) : Trail := { t with near := distance, far := t.near }

def swap (t : Trail) : Trail := { t with near := t.far, far := t.near }

def start (recent : Recent) (pos reach : Nat) : Trail :=
  let (r1, r2, _) := recent
  { anchor := pos
    near := if r1 ≤ reach then r1 else 0
    far := if r2 ≤ reach then r2 else 0 }

def finish (t : Trail) (recent : Recent) (reach : Nat) : Recent :=
  let (r1, r2, r3) := recent
  let kept1 := if r1 ≤ reach then 0 else r1
  let kept2 := if r2 ≤ reach then 0 else r2
  let kept2 := if kept1 ≠ 0 ∧ t.near ≠ 0 then kept1 else kept2
  (if t.near ≠ 0 then t.near else kept1, if t.far ≠ 0 then t.far else kept2, r3)

end Trail
end SymbolCatalog.Zstd
