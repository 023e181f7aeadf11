/-! Dictionaries that keep the order in which their keys arrived. Each key stands once; putting a
value under a key that is there changes the value where it stands. -/
namespace SymbolCatalog
variable {K V : Type}

structure Dict (K V : Type) where
  pairs : List (K × V)
  distinct : (pairs.map (·.1)).Nodup
  deriving DecidableEq, Repr

namespace Dict

def empty : Dict K V := ⟨[], by simp⟩

instance : Inhabited (Dict K V) := ⟨empty⟩

def keys (dict : Dict K V) : List K := dict.pairs.map (·.1)

def size (dict : Dict K V) : Nat := dict.pairs.length

variable [DecidableEq K]

def putPair (key : K) (value : V) : List (K × V) → List (K × V)
  | [] => [(key, value)]
  | p :: rest => if p.1 = key then (key, value) :: rest else p :: putPair key value rest

theorem mem_map_putPair {key k : K} {value : V} {pairs : List (K × V)} :
    k ∈ (putPair key value pairs).map (·.1) ↔ k = key ∨ k ∈ pairs.map (·.1) := by
  induction pairs with
  | nil => simp [putPair]
  | cons p rest ih =>
    rw [putPair]
    split
    · next h => simp [h]
    · simp only [List.map_cons, List.mem_cons, ih]; exact or_left_comm

theorem putPair_new {key : K} {value : V} {pairs : List (K × V)} (new : key ∉ pairs.map (·.1)) :
    putPair key value pairs = pairs ++ [(key, value)] := by
  induction pairs with
  | nil => rfl
  | cons p rest ih =>
    simp only [List.map_cons, List.mem_cons, not_or] at new
    rw [putPair, if_neg (Ne.symm new.1), ih new.2, List.cons_append]

theorem putPair_parts {key : K} {old value : V} {before after : List (K × V)} (new : key ∉ before.map (·.1)) :
    putPair key value (before ++ (key, old) :: after) = before ++ (key, value) :: after := by
  induction before with
  | nil => exact if_pos rfl
  | cons p rest ih =>
    simp only [List.map_cons, List.mem_cons, not_or] at new
    rw [List.cons_append, putPair, if_neg (Ne.symm new.1), ih new.2, List.cons_append]

theorem nodup_putPair {key : K} {value : V} {pairs : List (K × V)}
    (h : (pairs.map (·.1)).Nodup) : ((putPair key value pairs).map (·.1)).Nodup := by
  induction pairs with
  | nil => simp [putPair]
  | cons p rest ih =>
    have ⟨new, tail⟩ := List.nodup_cons.1 h
    rw [putPair]
    split
    · next e => exact List.nodup_cons.2 ⟨e ▸ new, tail⟩
    · next ne =>
      exact List.nodup_cons.2 ⟨fun hm => (mem_map_putPair.1 hm).elim ne new, ih tail⟩

def get? (dict : Dict K V) (key : K) : Option V :=
  (dict.pairs.find? fun p => p.1 = key).map (·.2)

def contains (dict : Dict K V) (key : K) : Bool := (dict.get? key).isSome

def insert (dict : Dict K V) (key : K) (value : V) : Dict K V :=
  ⟨putPair key value dict.pairs, nodup_putPair dict.distinct⟩

def erase (dict : Dict K V) (key : K) : Dict K V :=
  ⟨dict.pairs.filter fun p => p.1 ≠ key, dict.distinct.sublist (List.filter_sublist.map _)⟩

def ofPairs (pairs : List (K × V)) : Dict K V :=
  pairs.foldl (fun dict p => dict.insert p.1 p.2) empty

theorem pairs_ofPairs {pairs : List (K × V)} (distinct : (pairs.map (·.1)).Nodup) :
    (ofPairs pairs).pairs = pairs := by
  have grows (rest : List (K × V)) (dict : Dict K V)
      (distinct : ((dict.pairs ++ rest).map (·.1)).Nodup) :
      (rest.foldl (fun dict p => dict.insert p.1 p.2) dict).pairs = dict.pairs ++ rest := by
    induction rest generalizing dict with
    | nil => simp
    | cons p rest ih =>
      have put : (dict.insert p.1 p.2).pairs = dict.pairs ++ [p] := by
        refine putPair_new fun again => ?_
        rw [List.map_append, List.nodup_append] at distinct
        exact distinct.2.2 _ again _ (.head _) rfl
      rw [List.foldl_cons, ih _ (by simpa [put] using distinct), put, List.append_assoc]
      rfl
  exact grows pairs empty distinct

@[simp] theorem get?_empty (key : K) : (empty : Dict K V).get? key = none := rfl

theorem find?_putPair (key k : K) (value : V) (pairs : List (K × V)) :
    ((putPair key value pairs).find? fun p => p.1 = k).map (·.2) =
      if key = k then some value else (pairs.find? fun p => p.1 = k).map (·.2) := by
  induction pairs with
  | nil => by_cases h : key = k <;> simp [putPair, h]
  | cons p rest ih =>
    rw [putPair]
    by_cases hp : p.1 = key
    · by_cases h : key = k <;> simp [hp, h]
    · rw [if_neg hp]
      by_cases hk : p.1 = k
      · have : key ≠ k := fun e => hp (hk.trans e.symm)
        simp [hk, this]
      · simpa [hk] using ih

theorem get?_insert (dict : Dict K V) (key k : K) (value : V) :
    (dict.insert key value).get? k = if key = k then some value else dict.get? k :=
  find?_putPair key k value dict.pairs

theorem get?_erase (dict : Dict K V) (key k : K) :
    (dict.erase key).get? k = if key = k then none else dict.get? k := by
  unfold get? erase
  rw [List.find?_filter]
  split
  · next h =>
    rw [List.find?_eq_none.2 (by simp [h])]; rfl
  · next h =>
    congr 2
    funext p
    by_cases hp : p.1 = k <;> simp [hp]
    exact fun e => h e.symm

end Dict
end SymbolCatalog
