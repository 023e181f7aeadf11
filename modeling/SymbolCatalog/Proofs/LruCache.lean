import SymbolCatalog.LruCache

/-! What a cache finds after each of its operations. An entry may go at any insertion of another key;
what is found is always what was inserted last. -/
namespace SymbolCatalog.LruCache
variable {K V : Type} [DecidableEq K]

theorem findEmpty (capacity : Nat) (k : K) : (empty capacity : LruCache K V).find? k = none := rfl

theorem findClear (cache : LruCache K V) (k : K) : cache.clear.find? k = none := rfl

theorem findWithout (cache : LruCache K V) (key k : K) :
    ((cache.without key).find? fun entry => entry.1 = k).map (·.2) =
      if k = key then none else cache.find? k := by
  unfold without find?
  rw [List.find?_filter]
  by_cases same : k = key
  · subst same
    rw [if_pos rfl, List.find?_eq_none.2]
    · rfl
    · intro entry _
      simp
  · rw [if_neg same]
    congr 2
    funext entry
    by_cases this : entry.1 = k <;> simp [this, same]

theorem findFirst (cache : LruCache K V) (key k : K) (value : V) :
    (((key, value) :: cache.without key).find? fun entry => entry.1 = k).map (·.2) =
      if k = key then some value else cache.find? k := by
  have rest := cache.findWithout key k
  by_cases same : k = key
  · subst same
    simp
  · rw [if_neg same] at rest ⊢
    rw [List.find?_cons_of_neg (by simpa using Ne.symm same), rest]

theorem findErase (cache : LruCache K V) (key k : K) :
    (cache.erase key).2.find? k = if k = key then none else cache.find? k := cache.findWithout key k

theorem findErased (cache : LruCache K V) (key : K) : (cache.erase key).2.find? key = none := by
  rw [findErase, if_pos rfl]

theorem getFound (cache : LruCache K V) (key : K) : (cache.get key).1 = cache.find? key := by
  unfold get
  cases cache.find? key <;> rfl

theorem findGet (cache : LruCache K V) (key k : K) : (cache.get key).2.find? k = cache.find? k := by
  unfold get
  cases found : cache.find? key with
  | none => rfl
  | some value =>
    have first := cache.findFirst key k value
    by_cases same : k = key
    · subst same
      rw [if_pos rfl] at first
      exact first.trans found.symm
    · rw [if_neg same] at first
      exact first

theorem findInsert {cache : LruCache K V} {key k : K} {value w : V}
    (found : (cache.insert key value).find? k = some w) :
    (if k = key then some value else cache.find? k) = some w := by
  rw [← cache.findFirst key k value]
  unfold insert find? at found
  rw [Option.map_eq_some_iff] at found ⊢
  obtain ⟨entry, there, same⟩ := found
  refine ⟨entry, ?_, same⟩
  rw [← List.take_append_drop cache.capacity ((key, value) :: cache.without key), List.find?_append, there]
  rfl

def Sheds (cache cache' : LruCache K V) : Prop := ∀ key value, cache'.find? key = some value → cache.find? key = some value

theorem findAdjust (cache : LruCache K V) (key k : K) (f : V → V) :
    (cache.adjust key f).find? k = if k = key then (cache.find? k).map f else cache.find? k := by
  unfold adjust find?
  have sameKey : ((fun entry : K × V => decide (entry.1 = k)) ∘ fun entry =>
      if entry.1 = key then (entry.1, f entry.2) else entry) = fun entry => decide (entry.1 = k) := by
    funext entry
    dsimp only [Function.comp_apply]
    split <;> rfl
  rw [List.find?_map, sameKey]
  cases found : cache.entries.find? fun entry => decide (entry.1 = k) with
  | none => simp
  | some entry =>
    have own : entry.1 = k := by simpa using List.find?_some found
    by_cases same : k = key <;> simp [own, same]

end SymbolCatalog.LruCache
