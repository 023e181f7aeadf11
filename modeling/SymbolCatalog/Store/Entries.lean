import SymbolCatalog.Wire.Basic

/-! A dictionary from byte strings to byte strings in the order of the keys. Two dictionaries with
the same look-ups are equal, because the order leaves no choice. -/
namespace SymbolCatalog

def KeysAscend (pairs : List (Bytes × Bytes)) : Prop := pairs.Pairwise fun a b => a.1 < b.1

def insertSorted (key value : Bytes) : List (Bytes × Bytes) → List (Bytes × Bytes)
  | [] => [(key, value)]
  | (k, v) :: rest =>
    if key < k then (key, value) :: (k, v) :: rest
    else if key = k then (key, value) :: rest
    else (k, v) :: insertSorted key value rest

theorem mem_insertSorted {key value : Bytes} {p : Bytes × Bytes} {pairs : List (Bytes × Bytes)}
    (h : p ∈ insertSorted key value pairs) : p = (key, value) ∨ p ∈ pairs := by
  induction pairs with
  | nil => simpa [insertSorted] using h
  | cons first rest ih =>
    rw [insertSorted] at h
    split at h
    · exact List.mem_cons.1 h
    · split at h
      · exact (List.mem_cons.1 h).imp id (.tail _)
      · rcases List.mem_cons.1 h with h | h
        · exact .inr (h ▸ .head _)
        · exact (ih h).imp id (.tail _)

theorem keysAscend_insertSorted {pairs : List (Bytes × Bytes)} (h : KeysAscend pairs)
    (key value : Bytes) : KeysAscend (insertSorted key value pairs) := by
  induction pairs with
  | nil => simp [insertSorted, KeysAscend]
  | cons p rest ih =>
    have ⟨below, tail⟩ := List.pairwise_cons.1 h
    rw [insertSorted]
    split
    · next lt =>
      refine List.pairwise_cons.2 ⟨fun x hx => ?_, h⟩
      rcases List.mem_cons.1 hx with rfl | hx
      · exact lt
      · exact List.lt_trans lt (below x hx)
    · next ge =>
      split
      · next e => exact List.pairwise_cons.2 ⟨fun x hx => e ▸ below x hx, tail⟩
      · next ne =>
        refine List.pairwise_cons.2 ⟨fun x hx => ?_, ih tail⟩
        rcases mem_insertSorted hx with hx | hx
        · subst hx; exact Std.lt_of_le_of_ne (List.not_lt.1 ge) fun e => ne e.symm
        · exact below x hx

structure Entries where
  pairs : List (Bytes × Bytes)
  ascend : KeysAscend pairs
  deriving DecidableEq

namespace Entries

def empty : Entries := ⟨[], .nil⟩

instance : Inhabited Entries := ⟨empty⟩

def get? (entries : Entries) (key : Bytes) : Option Bytes :=
  (entries.pairs.find? fun p => p.1 = key).map (·.2)

def insert (entries : Entries) (key value : Bytes) : Entries :=
  ⟨insertSorted key value entries.pairs, keysAscend_insertSorted entries.ascend key value⟩

def erase (entries : Entries) (key : Bytes) : Entries :=
  ⟨entries.pairs.filter fun p => p.1 ≠ key, entries.ascend.sublist List.filter_sublist⟩

def keys (entries : Entries) : List Bytes := entries.pairs.map (·.1)

def keysFrom (entries : Entries) (start : Bytes) : List Bytes :=
  (entries.keys.dropWhile (· < start)).takeWhile (Bytes.startsWith · start)

def size (entries : Entries) : Nat := entries.pairs.length

def isEmpty (entries : Entries) : Bool := entries.pairs.isEmpty

/-- The dictionary of a list of pairs; the last value of a key counts. -/
def ofList (pairs : List (Bytes × Bytes)) : Entries :=
  pairs.foldl (fun entries p => entries.insert p.1 p.2) empty

instance : Wire Entries := ⟨fun entries => write entries.pairs, ofList <$> read⟩

end Entries
end SymbolCatalog
