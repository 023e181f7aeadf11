import SymbolCatalog.Zstd.Bits

/-! How a search for repetitions is set up: its strategy and the sizes of its tables, by effort and
by the size of the data. Small data gets small tables, which a distance can never outgrow. -/
namespace SymbolCatalog.Zstd

inductive Strategy where
  | single
  | double
  | greedy
  | lazy
  | lazier
  | sorted
  | cheapest
  | finest
  | twice
  deriving DecidableEq, Repr, Inhabited

def Strategy.rank : Strategy → Nat
  | .single => 1
  | .double => 2
  | .greedy => 3
  | .lazy => 4
  | .lazier => 5
  | .sorted => 6
  | .cheapest => 7
  | .finest => 8
  | .twice => 9

structure Settings where
  windowLog : Nat
  chainLog : Nat
  hashLog : Nat
  searchLog : Nat
  shortest : Nat
  target : Nat
  strategy : Strategy
  deriving Repr, Inhabited

namespace Settings

abbrev Row := Nat × Nat × Nat × Nat × Nat × Strategy

def huge : Array (Nat × Row) := #[
  (19, 13, 14, 1, 7, 0, .single), (20, 15, 16, 1, 6, 0, .single), (21, 16, 17, 1, 5, 0, .double),
  (21, 18, 18, 1, 5, 0, .double), (21, 18, 19, 3, 5, 2, .greedy), (21, 18, 19, 3, 5, 4, .lazy),
  (21, 19, 20, 4, 5, 8, .lazy), (21, 19, 20, 4, 5, 16, .lazier), (22, 20, 21, 4, 5, 16, .lazier),
  (22, 21, 22, 5, 5, 16, .lazier), (22, 21, 22, 6, 5, 16, .lazier),
  (22, 22, 23, 6, 5, 32, .lazier), (22, 22, 22, 4, 5, 32, .sorted),
  (22, 22, 23, 5, 5, 32, .sorted), (22, 23, 23, 6, 5, 32, .sorted),
  (22, 22, 22, 5, 5, 48, .cheapest), (23, 23, 22, 5, 4, 64, .cheapest),
  (23, 23, 22, 6, 3, 64, .finest), (23, 24, 22, 7, 3, 256, .twice), (25, 25, 23, 7, 3, 256, .twice),
  (26, 26, 24, 7, 3, 512, .twice), (27, 27, 25, 9, 3, 999, .twice)]

def large : Array Row := #[
  (13, 14, 1, 6, 0, .single), (14, 14, 1, 5, 0, .double), (16, 16, 1, 4, 0, .double),
  (16, 17, 3, 5, 2, .greedy), (17, 18, 5, 5, 2, .greedy), (18, 19, 3, 5, 4, .lazy),
  (18, 19, 4, 4, 4, .lazy), (18, 19, 4, 4, 8, .lazier), (18, 19, 5, 4, 8, .lazier),
  (18, 19, 6, 4, 8, .lazier), (18, 19, 5, 4, 12, .sorted), (19, 19, 7, 4, 12, .sorted),
  (18, 19, 4, 4, 16, .cheapest), (18, 19, 4, 3, 32, .cheapest), (18, 19, 6, 3, 128, .cheapest),
  (19, 19, 6, 3, 128, .finest), (19, 19, 8, 3, 256, .finest), (19, 19, 6, 3, 128, .twice),
  (19, 19, 8, 3, 256, .twice), (19, 19, 10, 3, 512, .twice), (19, 19, 12, 3, 512, .twice),
  (19, 19, 13, 3, 999, .twice)]

def medium : Array Row := #[
  (12, 13, 1, 6, 0, .single), (13, 15, 1, 5, 0, .single), (15, 16, 2, 5, 0, .double),
  (17, 17, 2, 4, 0, .double), (16, 17, 3, 4, 2, .greedy), (16, 17, 3, 4, 4, .lazy),
  (16, 17, 3, 4, 8, .lazier), (16, 17, 4, 4, 8, .lazier), (16, 17, 5, 4, 8, .lazier),
  (16, 17, 6, 4, 8, .lazier), (17, 17, 5, 4, 8, .sorted), (18, 17, 7, 4, 12, .sorted),
  (18, 17, 3, 4, 12, .cheapest), (18, 17, 4, 3, 32, .cheapest), (18, 17, 6, 3, 256, .cheapest),
  (18, 17, 6, 3, 128, .finest), (18, 17, 8, 3, 256, .finest), (18, 17, 10, 3, 512, .finest),
  (18, 17, 5, 3, 256, .twice), (18, 17, 7, 3, 512, .twice), (18, 17, 9, 3, 512, .twice),
  (18, 17, 11, 3, 999, .twice)]

def small : Array Row := #[
  (14, 15, 1, 5, 0, .single), (14, 15, 1, 4, 0, .single), (14, 15, 2, 4, 0, .double),
  (14, 14, 4, 4, 2, .greedy), (14, 14, 3, 4, 4, .lazy), (14, 14, 4, 4, 8, .lazier),
  (14, 14, 6, 4, 8, .lazier), (14, 14, 8, 4, 8, .lazier), (15, 14, 5, 4, 8, .sorted),
  (15, 14, 9, 4, 8, .sorted), (15, 14, 3, 4, 12, .cheapest), (15, 14, 4, 3, 24, .cheapest),
  (15, 14, 5, 3, 32, .finest), (15, 15, 6, 3, 64, .finest), (15, 15, 7, 3, 256, .finest),
  (15, 15, 5, 3, 48, .twice), (15, 15, 6, 3, 128, .twice), (15, 15, 7, 3, 256, .twice),
  (15, 15, 8, 3, 256, .twice), (15, 15, 8, 3, 512, .twice), (15, 15, 9, 3, 512, .twice),
  (15, 15, 10, 3, 999, .twice)]

def base (effort size : Nat) : Settings :=
  let row (windowLog : Nat) (rows : Array Row) : Nat × Row :=
    (windowLog, rows.getD (effort - 1) default)
  let (windowLog, chainLog, hashLog, searchLog, shortest, target, strategy) :=
    if size ≤ 16 * 1024 then row 14 small
    else if size ≤ 128 * 1024 then row 17 medium
    else if size ≤ 256 * 1024 then row 18 large
    else huge.getD (effort - 1) default
  ⟨windowLog, chainLog, hashLog, searchLog, shortest, target, strategy⟩

def sizeLog (size : Nat) : Nat := if size < 64 then 6 else highBit (size - 1) + 1

/-- Settings whose tables are not larger than data of a size can use. A frame's window is never
smaller than 1 KiB. -/
def fit (s : Settings) (size : Nat) : Settings :=
  let windowLog := min s.windowLog (sizeLog size)
  let cycleLog := if s.strategy.rank < Strategy.sorted.rank then s.chainLog else s.chainLog - 1
  { s with
    hashLog := min s.hashLog (windowLog + 1)
    chainLog := s.chainLog - (cycleLog - windowLog)
    windowLog := max windowLog 10 }

def ofEffort (effort size : Nat) : Settings := (base effort size).fit size

def lowest (s : Settings) (pos : Nat) : Nat := pos - twoTo s.windowLog

def minGain (s : Settings) (size : Nat) : Nat :=
  size / twoTo (if s.strategy.rank < Strategy.finest.rank then 6 else s.strategy.rank - 1) + 2

end Settings
end SymbolCatalog.Zstd
