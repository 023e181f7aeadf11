import SymbolCatalog.Proofs.Ends
import SymbolCatalog.Proofs.Store.Lookup
import SymbolCatalog.Store.File

/-! Stores that list the keys of a dictionary. They scan from a byte string on and stop at the first key
that does not begin with it, and so find what the filter over all keys finds. -/
namespace SymbolCatalog
variable {σ : Type} {store : Store σ} {view : σ → Entries}

structure Entries.Begin (entries : Entries) (start : Bytes) (found : List Bytes) : Prop where
  ascending : found.Pairwise (· < ·)
  once : found.Nodup
  all : ∀ key, key ∈ found ↔ (entries.get? key).isSome ∧ start <+: key

theorem Entries.scanBegin (entries : Entries) (start : Bytes) : entries.Begin start (entries.keysFrom start) := by
  rw [keysFromFiltered]
  refine ⟨entries.keysSorted.filter _, entries.keysNodup.filter _, fun key => ?_⟩
  simp [List.mem_filter, memKeys, Bytes.startsWith]

namespace Store

structure Lists (store : Store σ) (view : σ → Entries) : Prop where
  keys : ∀ s, store.keys s = (.ok (view s).keys, s)
  keysFrom : ∀ start s, store.keysFrom start s = (.ok ((view s).keysFrom start), s)

theorem Lists.filtered (lists : store.Lists view) (start : Bytes) (s : σ) :
    filterKeys store.keys start s = (.ok ((view s).keys.filter (Bytes.startsWith · start)), s) := by
  unfold filterKeys
  rw [ExceptT.runBind, lists.keys]
  rfl

structure Scans (store : Store σ) (view : σ → Entries) (start : Bytes) : Prop where
  plain : store.keysFrom start = filterKeys store.keys start
  finds : ∀ s, ∃ found, store.keysFrom start s = (.ok found, s) ∧ (view s).Begin start found

theorem Lists.scans (lists : store.Lists view) (start : Bytes) : store.Scans view start where
  plain := by
    funext s
    rw [lists.keysFrom, lists.filtered, Entries.keysFromFiltered]
  finds s := ⟨_, lists.keysFrom start s, (view s).scanBegin start⟩

end Store

theorem memoryLists : memoryStore.Lists id := ⟨fun _ => rfl, fun _ _ => rfl⟩

theorem fileLists : fileStore.Lists (·.1.entries) := ⟨fun _ => rfl, fun _ _ => rfl⟩

/-- Whatever a store in memory or one with a snapshot file holds, and whatever byte string is given, the
scan from there on is the filter over all keys. It finds the stored keys that begin with the byte string,
in ascending order and each once, and changes nothing. -/
theorem scansEveryPrefix (start : Bytes) :
    memoryStore.Scans id start ∧ fileStore.Scans (·.1.entries) start :=
  ⟨memoryLists.scans start, fileLists.scans start⟩

example : (Entries.ofList [([255], []), ([254, 255], []), ([255, 255], []), ([], [])]).keysFrom [255] =
    [[255], [255, 255]] := by decide

end SymbolCatalog
