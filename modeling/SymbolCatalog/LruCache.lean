/-! A cache of bounded size that forgets the entry used least recently, and counts how often a
look-up found something. Entries stand most recent first. -/
namespace SymbolCatalog

structure LruCache (K V : Type) where
  capacity : Nat
  entries : List (K × V)
  hits : Nat
  misses : Nat

structure CacheStats where
  entries : Nat
  capacity : Nat
  hits : Nat
  misses : Nat
  deriving DecidableEq, Repr

def CacheStats.hitRate (stats : CacheStats) : Float :=
  if stats.hits + stats.misses = 0 then 0.0
  else Float.ofNat stats.hits / Float.ofNat (stats.hits + stats.misses)

namespace LruCache
variable {K V : Type} [DecidableEq K]

/-- An empty cache; room for no entry counts as room for one. -/
def empty (capacity : Nat) : LruCache K V := ⟨max capacity 1, [], 0, 0⟩

def find? (cache : LruCache K V) (key : K) : Option V :=
  (cache.entries.find? fun entry => entry.1 = key).map (·.2)

def contains (cache : LruCache K V) (key : K) : Bool := (cache.find? key).isSome

def without (cache : LruCache K V) (key : K) : List (K × V) :=
  cache.entries.filter fun entry => entry.1 ≠ key

def get (cache : LruCache K V) (key : K) : Option V × LruCache K V :=
  match cache.find? key with
  | some value =>
    (some value,
      { cache with entries := (key, value) :: cache.without key, hits := cache.hits + 1 })
  | none => (none, { cache with misses := cache.misses + 1 })

def insert (cache : LruCache K V) (key : K) (value : V) : LruCache K V :=
  { cache with entries := ((key, value) :: cache.without key).take cache.capacity }

def erase (cache : LruCache K V) (key : K) : Option V × LruCache K V :=
  (cache.find? key, { cache with entries := cache.without key })

def adjust (cache : LruCache K V) (key : K) (f : V → V) : LruCache K V :=
  { cache with entries := cache.entries.map fun entry =>
      if entry.1 = key then (entry.1, f entry.2) else entry }

def clear (cache : LruCache K V) : LruCache K V := { cache with entries := [] }

def size (cache : LruCache K V) : Nat := cache.entries.length

def stats (cache : LruCache K V) : CacheStats :=
  ⟨cache.size, cache.capacity, cache.hits, cache.misses⟩

end LruCache
end SymbolCatalog
