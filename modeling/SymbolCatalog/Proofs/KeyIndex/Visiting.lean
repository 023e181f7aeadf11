import SymbolCatalog.Proofs.KeyIndex.Calls

/-! The keys that a visitor is shown: each key that is accepted and occurs in the scope, once,
whether the index holds it or only the store does. -/
namespace SymbolCatalog.KeyIndex
open ExceptT StoreCall
variable {K V σ : Type}

def Shown (files : Contents K V) (scope : Scope) (accepts : K → Bool) (keys : List K) : Prop :=
  keys.Nodup ∧ ∀ key, key ∈ keys ↔
    accepts key ∧ ∃ file value, (key, value) ∈ files file ∧ scope file

def Visits (a : Account K V) (scope : Scope) (accepts : K → Bool) (keys : List K) : Prop :=
  keys.Nodup ∧ ∀ key, key ∈ keys ↔ accepts key ∧ ∃ file value, a.occurs key file value ∧ scope file

theorem memPairsIff {α : Type} [DecidableEq K] {dict : Dict K α} {key : K} {value : α} :
    (key, value) ∈ dict.pairs ↔ dict.get? key = some value := by
  have one : ∀ p ∈ dict.pairs, ∀ q ∈ dict.pairs, p.1 = q.1 → p = q :=
    List.inj_on_of_nodup_map dict.distinct
  rw [Dict.get?, Option.map_eq_some_iff]
  constructor
  · intro mem
    cases hf : dict.pairs.find? fun p => p.1 = key with
    | none => simpa using List.find?_eq_none.1 hf _ mem
    | some p =>
      have same := one p (List.mem_of_find?_eq_some hf) _ mem (by simpa using List.find?_some hf)
      exact ⟨p, rfl, congrArg Prod.snd same⟩
  · intro h
    obtain ⟨p, hf, rfl⟩ := h
    have : p.1 = key := by simpa using List.find?_some hf
    subst this
    exact List.mem_of_find?_eq_some hf

variable [Wire K]

structure Gathered (held accepts : K → Bool) (a : Account K V) (places : List Bytes)
    (entries : List (K × Occurrences V)) : Prop where
  keys : (entries.map (·.1)).Nodup
  sound : ∀ e ∈ entries, held e.1 = false ∧ accepts e.1 ∧ containerKey e.1 ∈ places ∧
    a.Shows e.2 e.1
  complete : ∀ key, Wire.ReadsBack key → containerKey key ∈ places → held key = false →
    accepts key → (∃ file value, a.occurs key file value) → ∃ c, (key, c) ∈ entries

theorem gatheredSkip {held accepts : K → Bool} {a : Account K V} {key : K}
    {rest : List Bytes} {entries : List (K × Occurrences V)} (reads : Wire.ReadsBack key)
    (h : Gathered held accepts a rest entries)
    (skip : held key = false → accepts key → ∀ file value, ¬ a.occurs key file value) :
    Gathered held accepts a (containerKey key :: rest) entries where
  keys := h.keys
  sound e he := by
    obtain ⟨free, accepted, mem, shows⟩ := h.sound e he
    exact ⟨free, accepted, .tail _ mem, shows⟩
  complete k readsK mem free accepted occurs := by
    rcases List.mem_cons.1 mem with same | mem
    · cases containerKeyInjective readsK reads same
      obtain ⟨file, value, m⟩ := occurs
      exact absurd m (skip free accepted file value)
    · exact h.complete k readsK mem free accepted occurs

theorem gatheredTake {held accepts : K → Bool} {a : Account K V} {key : K}
    {rest : List Bytes} {entries : List (K × Occurrences V)} {c : Occurrences V}
    (reads : Wire.ReadsBack key) (h : Gathered held accepts a rest entries)
    (new : containerKey key ∉ rest) (free : held key = false) (accepted : accepts key)
    (shows : a.Shows c key) :
    Gathered held accepts a (containerKey key :: rest) ((key, c) :: entries) where
  keys := by
    refine List.nodup_cons.2 ⟨fun mem => ?_, h.keys⟩
    obtain ⟨e, he, same⟩ := List.mem_map.1 mem
    have mem := (h.sound e he).2.2.1
    rw [same] at mem
    exact new mem
  sound e he := by
    rcases List.mem_cons.1 he with rfl | he
    · exact ⟨free, accepted, .head _, shows⟩
    · obtain ⟨free, accepted, mem, shows⟩ := h.sound e he
      exact ⟨free, accepted, .tail _ mem, shows⟩
  complete k readsK mem free accepted occurs := by
    rcases List.mem_cons.1 mem with same | mem
    · cases containerKeyInjective readsK reads same
      exact ⟨c, .head _⟩
    · obtain ⟨c, hc⟩ := h.complete k readsK mem free accepted occurs
      exact ⟨c, .tail _ hc⟩

variable [DecidableEq K] [Wire V] [DecidableEq V]
variable {store : Store σ} {view : σ → Entries} {fails : Prop}

theorem Tells.endsStored {index : KeyIndex K V} {s : σ} {a : Account K V} (h : Tells index (view s) a)
    (follows : store.Follows view fails) (accepts : K → Bool) {places : List Bytes} (distinct : places.Nodup)
    (coded : ∀ place ∈ places, ((view s).get? place).isSome ∧
      ∃ key : K, Wire.ReadsBack key ∧ place = containerKey key) :
    (stored store index.containers.contains accepts places : StoreCall σ (Found K V)).Ends s
      (fun found s' => view s' = view s ∧
        Gathered index.containers.contains accepts a places found.entries)
      fun s' => fails ∧ view s' = view s := by
  induction places generalizing s with
  | nil =>
    exact endsPure ⟨rfl, List.nodup_nil, fun _ he => absurd he List.not_mem_nil,
      fun _ _ mem => absurd mem List.not_mem_nil⟩
  | cons place rest ih =>
    obtain ⟨new, restDistinct⟩ := List.nodup_cons.1 distinct
    obtain ⟨there, key, reads, rfl⟩ := coded place (.head _)
    have later : ∀ {s' : σ}, view s' = view s → (stored store index.containers.contains accepts
        rest : StoreCall σ (Found K V)).Ends s' (fun found s'' => view s'' = view s ∧
          Gathered index.containers.contains accepts a rest found.entries)
        fun s'' => fails ∧ view s'' = view s := by
      intro s' same
      have := ih (s := s') (same.symm ▸ h) restDistinct fun p hp => same.symm ▸ coded p (.tail _ hp)
      rwa [same] at this
    unfold stored
    refine endsBind (endsLift (a := key) (decodeRead (reads [])) ?_)
    cases held : index.containers.contains key with
    | true =>
      refine (later rfl).weaken ?_ fun _ => id
      intro found s' given
      obtain ⟨same, g⟩ := given
      exact ⟨same, gatheredSkip reads g fun free => by simp [held] at free⟩
    | false =>
      dsimp only
      rw [if_neg Bool.false_ne_true]
      cases accepted : accepts key with
      | false =>
        refine endsBind (endsPure (endsBind ((later rfl).weaken ?_ fun _ => id)))
        intro found s' given
        obtain ⟨same, g⟩ := given
        exact endsPure ⟨same, gatheredSkip reads g fun _ takes => by simp [accepted] at takes⟩
      | true =>
        have clean : key ∉ index.dirtyKeys := fun d => by simp [h.dirty key d] at held
        refine endsBind ((endsLoad follows (h.clean key reads clean)).weaken ?_ fun _ => id)
        intro found s' given
        obtain ⟨same, told⟩ := given
        refine endsBind ((later same).weaken ?_ fun _ => id)
        intro others s'' given
        obtain ⟨same', g⟩ := given
        refine endsPure ⟨same', ?_⟩
        cases found with
        | some c => exact gatheredTake reads g new held accepted told.2
        | none => exact gatheredSkip reads g fun _ _ => told

theorem Tells.placesCoded {index : KeyIndex K V} {entries : Entries} {a : Account K V}
    (h : Tells index entries a) {place : Bytes}
    (mem : place ∈ entries.keys.filter (Bytes.startsWith · containerFamily)) :
    (entries.get? place).isSome ∧ ∃ key : K, Wire.ReadsBack key ∧ place = containerKey key := by
  obtain ⟨mem, begins⟩ := List.mem_filter.1 mem
  obtain ⟨rest, rfl⟩ := List.isPrefixOf_iff_prefix.1 begins
  obtain ⟨key, reads, rfl⟩ := h.keyPlaces rest (Entries.memKeys.1 mem)
  exact ⟨Entries.memKeys.1 mem, key, reads, rfl⟩

theorem Tells.placed {index : KeyIndex K V} {entries : Entries} {a : Account K V}
    (h : Tells index entries a) {key : K} (free : index.containers.contains key = false)
    {file : FileId} {value : V} (occurs : a.occurs key file value) :
    containerKey key ∈ entries.keys.filter (Bytes.startsWith · containerFamily) := by
  have clean : key ∉ index.dirtyKeys := fun d => by simp [h.dirty key d] at free
  obtain ⟨found, record, told⟩ := h.clean key (h.coded.occurring key file value occurs).1 clean
  rcases recordAtCases record with ⟨-, rfl⟩ | ⟨bytes, c, there, -, -⟩
  · exact absurd occurs (told file value)
  · refine List.mem_filter.2 ⟨Entries.memKeys.2 (by rw [there]; rfl), ?_⟩
    exact List.isPrefixOf_iff_prefix.2 (List.prefix_append _ _)

theorem Tells.heldPair {index : KeyIndex K V} {entries : Entries} {a : Account K V}
    (h : Tells index entries a) {key : K} {c : Occurrences V}
    (mem : (key, c) ∈ index.containers.pairs) :
    index.containers.contains key ∧ a.Shows c key := by
  have known := memPairsIff.1 mem
  have there : index.containers.contains key := by rw [Dict.contains, known]; rfl
  have shows := (h.shown key there).2
  rw [KeyIndex.held, known] at shows
  exact ⟨there, shows⟩

theorem Tells.endsCollect {index : KeyIndex K V} {s : σ} {a : Account K V} (h : Tells index (view s) a)
    (follows : store.Follows view fails) (accepts : K → Bool) :
    (collect store accepts : Call K V σ (Found K V)).Ends (index, s)
      (fun found after => after.1 = index ∧ view after.2 = view s ∧
        (found.entries.map (·.1)).Nodup ∧
        (∀ e ∈ found.entries, accepts e.1 ∧ a.Shows e.2 e.1) ∧
        ∀ key, accepts key → (∃ file value, a.occurs key file value) →
          ∃ c, (key, c) ∈ found.entries)
      fun after => fails ∧ after.1 = index ∧ view after.2 = view s := by
  unfold collect
  refine endsBind (endsNow (endsBind (endsSecond ((follows.keysFrom _ s).weaken ?_ ?_))))
  · intro places s' given
    obtain ⟨same, rfl⟩ := given
    have distinct := (view s).keysNodup.filter (Bytes.startsWith · containerFamily)
    have gather := Tells.endsStored (same.symm ▸ h) follows accepts distinct fun place mem =>
      same.symm ▸ h.placesCoded mem
    refine endsBind (endsSecond (gather.weaken ?_ ?_))
    · intro found s'' given
      obtain ⟨same', g⟩ := given
      refine endsPure ⟨rfl, same'.trans same, ?_, ?_, ?_⟩
      · rw [List.map_append]
        refine List.nodup_append.2 ⟨?_, g.keys, ?_⟩
        · exact index.containers.distinct.sublist (List.filter_sublist.map _)
        · intro _ left _ right equal
          subst equal
          obtain ⟨⟨key, c⟩, mem, rfl⟩ := List.mem_map.1 left
          obtain ⟨e, he, same⟩ := List.mem_map.1 right
          have free := (g.sound e he).1
          rw [same, (h.heldPair (List.mem_filter.1 mem).1).1] at free
          cases free
      · intro e he
        rcases List.mem_append.1 he with left | right
        · obtain ⟨mem, accepted⟩ := List.mem_filter.1 left
          exact ⟨accepted, (h.heldPair mem).2⟩
        · obtain ⟨-, accepted, -, shows⟩ := g.sound e right
          exact ⟨accepted, shows⟩
      · intro key accepted given
        obtain ⟨file, value, occurs⟩ := given
        have reads := (h.coded.occurring key file value occurs).1
        cases known : index.containers.get? key with
        | some c =>
          exact ⟨c, List.mem_append.2 (.inl (List.mem_filter.2 ⟨memPairsIff.2 known, accepted⟩))⟩
        | none =>
          have free : index.containers.contains key = false := by rw [Dict.contains, known]; rfl
          obtain ⟨c, hc⟩ := g.complete key reads (h.placed free occurs) free accepted
            ⟨file, value, occurs⟩
          exact ⟨c, List.mem_append.2 (.inr hc)⟩
    · intro s'' given
      obtain ⟨may, same'⟩ := given
      exact ⟨may, rfl, same'.trans same⟩
  · intro s' given
    obtain ⟨may, same⟩ := given
    exact ⟨may, rfl, same⟩

theorem Tells.endsVisit {index : KeyIndex K V} {s : σ} {a : Account K V} (h : Tells index (view s) a)
    (follows : store.Follows view fails) {α : Type} (scope : Scope)
    (accepts : K → Bool) (visitor : α → K → Bool × α) (start : α) :
    (visitKeys store scope accepts visitor start : Call K V σ (Visited α)).Ends (index, s)
      (fun visited after => after.1 = index ∧ view after.2 = view s ∧
        ∃ keys, Visits a scope accepts keys ∧
          (visited.completed, visited.result) = visitAll visitor start keys)
      fun after => fails ∧ after.1 = index ∧ view after.2 = view s := by
  unfold visitKeys
  refine endsBind ((h.endsCollect follows accepts).weaken ?_ fun _ => id)
  intro found after given
  obtain ⟨index_, same, distinct, sound, complete⟩ := given
  refine endsPure ⟨index_, same, _, ⟨?_, fun key => ?_⟩, rfl⟩
  · exact distinct.sublist (List.filter_sublist.map _)
  · simp only [List.mem_map, List.mem_filter, Occurrences.anyFileIff]
    constructor
    · intro given
      obtain ⟨e, ⟨he, file, value, mem, inside⟩, rfl⟩ := given
      obtain ⟨accepted, shows⟩ := sound e he
      exact ⟨accepted, file, value, (shows file value).1 mem, inside⟩
    · intro given
      obtain ⟨accepted, file, value, mem, inside⟩ := given
      obtain ⟨c, hc⟩ := complete key accepted ⟨file, value, mem⟩
      exact ⟨(key, c), ⟨hc, file, value, ((sound _ hc).2 file value).2 mem, inside⟩, rfl⟩

end SymbolCatalog.KeyIndex
