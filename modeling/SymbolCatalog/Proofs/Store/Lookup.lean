import SymbolCatalog.Store.Entries

/-! Ordered dictionaries seen through their look-ups, and the scan from a key on: on ascending keys
it finds the keys that begin with a byte string, all of them and no others. -/
namespace SymbolCatalog.Entries

theorem getEmpty (key : Bytes) : empty.get? key = none := rfl

theorem findInserted (key k value : Bytes) (pairs : List (Bytes × Bytes)) :
    ((insertSorted key value pairs).find? fun p => p.1 = k).map (·.2) =
      if key = k then some value else (pairs.find? fun p => p.1 = k).map (·.2) := by
  induction pairs with
  | nil => by_cases h : key = k <;> simp [insertSorted, h]
  | cons p rest ih =>
    rw [insertSorted]
    split
    · by_cases h : key = k <;> simp [h]
    · split
      · next same => by_cases h : key = k <;> simp [h, ← same]
      · next other =>
        by_cases hp : p.1 = k
        · have : key ≠ k := fun e => other (e.trans hp.symm)
          simp [hp, this]
        · simpa [hp] using ih

theorem getInsert (entries : Entries) (key k value : Bytes) :
    (entries.insert key value).get? k = if key = k then some value else entries.get? k :=
  findInserted key k value entries.pairs

theorem getErase (entries : Entries) (key k : Bytes) :
    (entries.erase key).get? k = if key = k then none else entries.get? k := by
  unfold get? erase
  rw [List.find?_filter]
  split
  · next h => rw [List.find?_eq_none.2 (by simp [h])]; rfl
  · next h =>
    congr 2
    funext p
    by_cases hp : p.1 = k
    · simp [hp, Ne.symm h]
    · simp [hp]

def assign (entries : Entries) (key : Bytes) : Option Bytes → Entries
  | some value => entries.insert key value
  | none => entries.erase key

theorem getAssign (entries : Entries) (key k : Bytes) (value? : Option Bytes) :
    (entries.assign key value?).get? k = if key = k then value? else entries.get? k := by
  cases value? with
  | none => exact getErase entries key k
  | some value => exact getInsert entries key k value

theorem memKeys {entries : Entries} {key : Bytes} :
    key ∈ entries.keys ↔ (entries.get? key).isSome := by
  simp [keys, get?]

theorem keysSorted (entries : Entries) : entries.keys.Pairwise (· < ·) :=
  List.pairwise_map.2 entries.ascend

theorem keysNodup (entries : Entries) : entries.keys.Nodup :=
  entries.keysSorted.imp fun {a b} (lt : a < b) (same : a = b) => List.lt_irrefl a (same ▸ lt)

theorem notBelow {start key : Bytes} (h : start <+: key) : ¬ key < start := by
  obtain ⟨rest, rfl⟩ := h
  induction start with
  | nil => exact List.not_lt_nil _
  | cons b start ih => simpa [List.cons_lt_cons_iff] using ih

theorem between {start low high : Bytes} (from_ : ¬ low < start) (order : low < high)
    (h : start <+: high) : start <+: low := by
  induction start generalizing low high with
  | nil => exact List.nil_prefix
  | cons b start ih =>
    obtain ⟨rest, rfl⟩ := h
    cases low with
    | nil => exact absurd (List.nil_lt_cons _ _) from_
    | cons c low =>
      simp only [List.cons_append, List.cons_lt_cons_iff, not_or, not_and] at from_ order
      have same : c = b := by
        rcases order with lt | ⟨e, -⟩
        · exact absurd lt from_.1
        · exact e
      subst same
      have order : low < start ++ rest := order.elim (fun lt => absurd lt from_.1) (·.2)
      exact (List.prefix_cons_inj c).2 (ih (from_.2 rfl) order (List.prefix_append _ _))

theorem takenWhile {start : Bytes} {keys : List Bytes} (ascend : keys.Pairwise (· < ·))
    (low : ∀ key ∈ keys, ¬ key < start) :
    keys.takeWhile (Bytes.startsWith · start) = keys.filter (Bytes.startsWith · start) := by
  induction keys with
  | nil => rfl
  | cons key rest ih =>
    have ⟨above, tail⟩ := List.pairwise_cons.1 ascend
    cases h : Bytes.startsWith key start with
    | true =>
      simp only [List.takeWhile_cons, List.filter_cons, h, if_true]
      rw [ih tail fun k hk => low k (.tail _ hk)]
    | false =>
      have none : ∀ k ∈ rest, ¬ Bytes.startsWith k start := by
        intro k hk begins
        have := between (low key (.head _)) (above k hk) (List.isPrefixOf_iff_prefix.1 begins)
        rw [Bytes.startsWith, List.isPrefixOf_iff_prefix.2 this] at h
        cases h
      simp only [List.takeWhile_cons, List.filter_cons, h]
      exact (List.filter_eq_nil_iff.2 none).symm

theorem scanned {start : Bytes} {keys : List Bytes} (ascend : keys.Pairwise (· < ·)) :
    (keys.dropWhile (· < start)).takeWhile (Bytes.startsWith · start) =
      keys.filter (Bytes.startsWith · start) := by
  induction keys with
  | nil => rfl
  | cons key rest ih =>
    have ⟨above, tail⟩ := List.pairwise_cons.1 ascend
    by_cases lt : key < start
    · have skip : Bytes.startsWith key start = false :=
        Bool.eq_false_iff.2 fun begins => notBelow (List.isPrefixOf_iff_prefix.1 begins) lt
      simp only [List.dropWhile_cons, List.filter_cons, skip, lt, decide_true, if_true]
      exact ih tail
    · rw [List.dropWhile_cons_of_neg (by simpa using lt)]
      refine takenWhile ascend fun k hk below => ?_
      rcases List.mem_cons.1 hk with rfl | hk
      · exact lt below
      · exact lt (List.lt_trans (above k hk) below)

/-- The scan from a key on agrees with the filter over all keys. -/
theorem keysFromFiltered (entries : Entries) (start : Bytes) :
    entries.keysFrom start = entries.keys.filter (Bytes.startsWith · start) :=
  scanned entries.keysSorted

end SymbolCatalog.Entries
