import SymbolCatalog.KeyIndex.Keys
import SymbolCatalog.Proofs.KeyIndex.Change
import SymbolCatalog.Proofs.Store.Follows

/-! What the calls of an index come to on a store that does what its calls say, or fails without
effect. A call that only reads leaves the store as it was and the index holding what it held. -/
namespace SymbolCatalog.KeyIndex
open ExceptT StoreCall
variable {K V σ : Type}

theorem endsLift {α τ : Type} {answer : Except StorageError α} {a : α} {t : τ}
    {done : α → τ → Prop} {failed : τ → Prop} (h : answer = .ok a) (good : done a t) :
    Ends (liftM answer : StoreCall τ α) t done failed := by
  subst h
  exact good

theorem endsNow {index : KeyIndex K V} {s : σ} {done : KeyIndex K V → KeyIndex K V × σ → Prop}
    {failed : KeyIndex K V × σ → Prop} (h : done index (index, s)) :
    Ends (now : Call K V σ (KeyIndex K V)) (index, s) done failed := h

theorem endsChange {index : KeyIndex K V} {s : σ} {f : KeyIndex K V → KeyIndex K V}
    {done : Unit → KeyIndex K V × σ → Prop} {failed : KeyIndex K V × σ → Prop}
    (h : done () (f index, s)) : Ends (change f : Call K V σ Unit) (index, s) done failed := h

variable [DecidableEq K] [DecidableEq V] [Wire K] [Wire V]
variable {store : Store σ} {view : σ → Entries} {fails : Prop}

omit [DecidableEq K] in
theorem endsLoad (follows : store.Follows view fails) {a : Account K V} {key : K} {s : σ}
    (stored : KeyTold (view s) a key) :
    (load store key : StoreCall σ (Option (Occurrences V))).Ends s
      (fun found s' => view s' = view s ∧ a.Told key found)
      fun s' => fails ∧ view s' = view s := by
  unfold load
  refine endsBind ((follows.get _ s).weaken ?_ fun _ => id)
  intro bytes? s' h
  obtain ⟨same, rfl⟩ := h
  obtain ⟨found, record, told⟩ := stored
  rcases recordAtCases record with ⟨absent, rfl⟩ | ⟨bytes, c, there, decoded, rfl⟩
  · rw [absent]
    exact endsPure ⟨same, told⟩
  · rw [there]
    exact endsMap (endsLift decoded ⟨same, told⟩)

structure Reads (view : σ → Entries) (before after : KeyIndex K V × σ) (a : Account K V) :
    Prop where
  tells : Tells after.1 (view after.2) a
  store : view after.2 = view before.2
  kept : ∀ key c, before.1.containers.get? key = some c → after.1.containers.get? key = some c
  forward : after.1.forward = before.1.forward
  version : after.1.version = before.1.version

variable {index : KeyIndex K V} {s : σ} {a : Account K V}

theorem readsNothing (h : Tells index (view s) a) {s' : σ} (same : view s' = view s) :
    Reads view (index, s) (index, s') a :=
  ⟨same ▸ h, same, fun _ _ => id, rfl, rfl⟩

theorem Reads.then {one two three : KeyIndex K V × σ} (first : Reads view one two a)
    (second : Reads view two three a) : Reads view one three a :=
  ⟨second.tells, second.store.trans first.store, fun key c h => second.kept key c (first.kept key c h),
    second.forward.trans first.forward, second.version.trans first.version⟩

theorem Reads.contains {before after : KeyIndex K V × σ} (r : Reads view before after a) {key : K}
    (there : before.1.containers.contains key) : after.1.containers.contains key := by
  obtain ⟨c, known⟩ := Option.isSome_iff_exists.1 there
  rw [Dict.contains, r.kept key c known]
  rfl

theorem Reads.same {before after : KeyIndex K V × σ} (r : Reads view before after a)
    (whole : ∀ key, a.Shows (before.1.held key) key) (key : K) : after.1.held key = before.1.held key := by
  cases known : before.1.containers.get? key with
  | some c =>
    unfold KeyIndex.held
    rw [known, r.kept key c known]
  | none =>
    have blank : before.1.held key = .empty := by
      unfold KeyIndex.held
      rw [known]
      rfl
    cases there : after.1.containers.contains key with
    | false =>
      rw [blank, KeyIndex.held, Option.not_isSome_iff_eq_none.1 (Bool.eq_false_iff.1 there)]
      rfl
    | true =>
      rw [blank]
      refine Occurrences.eqEmpty fun p mem => ?_
      have occurs := ((r.tells.shown key there).2 p.1 p.2).1 mem
      have mem := (whole key p.1 p.2).2 occurs
      rw [blank] at mem
      exact Occurrences.memEmpty mem

theorem Reads.holds {before after : KeyIndex K V × σ} {files : Contents K V}
    (r : Reads view before after files.account) (h : Holds before.1 (view before.2) files) :
    Holds after.1 (view after.2) files :=
  holdsIff.2 ⟨r.tells, by rw [r.store, r.version]; exact h.stamped⟩

theorem Tells.cache {entries : Entries} (h : Tells index entries a) {key : K}
    (reads : Wire.ReadsBack key) {c : Occurrences V} (shows : a.Shows c key) :
    Tells (index.cache key c) entries a := by
  refine { h with shown := fun k there => ?_, dirty := fun k hk => ?_ }
  · have held : (index.cache key c).held k = if key = k then c else index.held k := by
      unfold KeyIndex.cache KeyIndex.held
      rw [Dict.get?_insert]
      split <;> rfl
    rw [held]
    by_cases same : key = k
    · subst same
      rw [if_pos rfl]
      exact ⟨reads, shows⟩
    · rw [if_neg same]
      exact h.shown k ((containsInsert.1 there).resolve_left (Ne.symm same))
  · exact containsInsert.2 (.inr (h.dirty k hk))

omit [DecidableEq V] [Wire K] [Wire V] in
theorem keptCache {key k : K} {c c' : Occurrences V} (new : index.containers.contains key = false)
    (known : index.containers.get? k = some c) : (index.cache key c').containers.get? k = some c := by
  have other : key ≠ k := by
    intro same
    subst same
    simp [Dict.contains, known] at new
  unfold KeyIndex.cache
  rw [Dict.get?_insert, if_neg other, known]

theorem Tells.endsFetch (h : Tells index (view s) a) (follows : store.Follows view fails) {key : K}
    (reads : Wire.ReadsBack key) :
    (fetch store key : Call K V σ Unit).Ends (index, s)
      (fun _ after => Reads view (index, s) after a ∧ after.1.containers.contains key)
      fun after => fails ∧ Reads view (index, s) after a := by
  unfold fetch
  refine endsBind (endsNow ?_)
  cases there : index.containers.contains key with
  | true => exact endsPure ⟨readsNothing h rfl, there⟩
  | false =>
    have clean : key ∉ index.dirtyKeys := fun d => by simp [h.dirty key d] at there
    refine endsBind (endsSecond ((endsLoad follows (h.clean key reads clean)).weaken ?_ ?_))
    · intro found s' given
      obtain ⟨same, told⟩ := given
      have held := (same ▸ h : Tells index (view s') a).cache reads told.shows
      exact endsChange ⟨⟨held, same, fun k c => keptCache there, rfl, rfl⟩, containsInsert.2 (.inl rfl)⟩
    · intro s' given
      obtain ⟨may, same⟩ := given
      exact ⟨may, readsNothing h same⟩

theorem Tells.endsFetchAll (h : Tells index (view s) a) (follows : store.Follows view fails)
    {keys : List K} (reads : ∀ key ∈ keys, Wire.ReadsBack key) :
    (keys.forM (fetch store) : Call K V σ Unit).Ends (index, s)
      (fun _ after => Reads view (index, s) after a ∧ ∀ key ∈ keys, after.1.containers.contains key)
      fun after => fails ∧ Reads view (index, s) after a := by
  -- The keys before the ones still to come are held.
  refine endsForM (fun rest after => Reads view (index, s) after a ∧ (∀ key ∈ rest, Wire.ReadsBack key) ∧
      ∀ key ∈ keys, key ∈ rest ∨ after.1.containers.contains key)
    ⟨readsNothing h rfl, reads, fun key hk => .inl hk⟩ ?_ ?_
  · intro after given
    obtain ⟨r, _, all⟩ := given
    exact ⟨r, fun key hk => (all key hk).resolve_left List.not_mem_nil⟩
  · intro key rest pair given
    obtain ⟨index', s'⟩ := pair
    obtain ⟨r, readable, before⟩ := given
    refine (r.tells.endsFetch follows (readable key (.head _))).weaken ?_ ?_
    · intro _ after given
      obtain ⟨r', there⟩ := given
      refine ⟨r.then r', fun k hk => readable k (.tail _ hk), fun k hk => ?_⟩
      rcases before k hk with inside | held
      · rcases List.mem_cons.1 inside with rfl | inside
        · exact .inr there
        · exact .inl inside
      · exact .inr (r'.contains held)
    · intro after given
      obtain ⟨may, r'⟩ := given
      exact ⟨may, r.then r'⟩

theorem Tells.endsKeysOf (h : Tells index (view s) a) (follows : store.Follows view fails)
    (file : FileId) : (keysOf store file : Call K V σ (List K)).Ends (index, s)
      (fun keys after => a.Lists keys file ∧ after.1 = index ∧ view after.2 = view s)
      fun after => fails ∧ after.1 = index ∧ view after.2 = view s := by
  unfold keysOf
  refine endsBind (endsNow ?_)
  cases known : index.forward.get? file with
  | some keys => exact endsPure ⟨(h.listed file keys known).2, rfl, rfl⟩
  | none =>
    dsimp only
    split
    · next dirty =>
      have gone := h.gone file dirty known
      exact endsPure ⟨⟨List.nodup_nil, by simp [gone]⟩, rfl, rfl⟩
    · next settled =>
      refine endsBind (endsSecond ((follows.get _ s).weaken ?_ ?_))
      · intro bytes? s' given
        obtain ⟨same, rfl⟩ := given
        obtain ⟨found, record, -, lists⟩ := h.settled file settled
        rcases recordAtCases record with ⟨absent, rfl⟩ | ⟨bytes, keys, there, decoded, rfl⟩
        · rw [absent]
          exact endsPure ⟨lists, rfl, same⟩
        · rw [there]
          exact endsLift decoded ⟨lists, rfl, same⟩
      · intro s' given
        obtain ⟨may, same⟩ := given
        exact ⟨may, rfl, same⟩

structure Replaces (view : σ → Entries) (before after : KeyIndex K V × σ) (a : Account K V) (file : FileId)
    (entries : List (K × V)) : Prop where
  tells : Tells after.1 (view after.2) (a.put file entries)
  store : view after.2 = view before.2
  version : after.1.version = before.1.version
  held : (∀ key, a.Shows (before.1.held key) key) → (∀ key value, a.occurs key file value → a.lists file key) →
    ∀ key, after.1.held key = (before.1.held key).exchange file (valuesOf entries key)

theorem Reads.replaces {before after : KeyIndex K V × σ} (r : Reads view before after a) {file : FileId}
    {previous : List K} {entries : List (K × V)} (lists : a.Lists previous file)
    (held : ∀ key ∈ addAllNew previous (entries.map (·.1)), after.1.containers.contains key)
    (coded : ∀ p ∈ entries, Wire.ReadsBack p.1 ∧ Wire.ReadsBack p.2) :
    Replaces view before (after.1.replace file previous entries, after.2) a file entries where
  tells := r.tells.replace lists held coded
  store := r.store
  version := by
    rw [replaceEq]
    exact (touchedReplace after.1 file previous entries).version.trans r.version
  held whole closed key := by
    have same := r.same whole
    rw [← same key]
    refine heldReplace (fun key value mem => (lists.2 key).2 (closed key value ?_)) key
    rw [same key] at mem
    exact (whole key file value).1 mem

/- The keys of a file, and others that go with them, are all held before a change. If one of them cannot be
read the change is not made. -/
theorem Tells.endsFetchFor (h : Tells index (view s) a) (follows : store.Follows view fails) (file : FileId)
    {needed : List K → List K} {β : Type} {next : List K → Call K V σ β} {done : β → KeyIndex K V × σ → Prop}
    (reads : ∀ previous, a.Lists previous file → ∀ key ∈ needed previous, Wire.ReadsBack key)
    (change : ∀ previous after, a.Lists previous file → Reads view (index, s) after a →
      (∀ key ∈ needed previous, after.1.containers.contains key) →
      (next previous).Ends after done fun after => fails ∧ Reads view (index, s) after a) :
    Ends (do let previous ← keysOf store file; (needed previous).forM (fetch store); next previous) (index, s)
      done fun after => fails ∧ Reads view (index, s) after a := by
  refine endsBind ((h.endsKeysOf follows file).weaken ?_ ?_)
  · intro previous pair given
    obtain ⟨_, s'⟩ := pair
    obtain ⟨lists, rfl, same⟩ := given
    have h' := same.symm ▸ h
    refine endsBind ((Tells.endsFetchAll h' follows (reads previous lists)).weaken ?_ ?_)
    · intro _ after given
      obtain ⟨r, held⟩ := given
      exact change previous after lists ((readsNothing h same).then r) held
    · intro after given
      obtain ⟨may, r⟩ := given
      exact ⟨may, (readsNothing h same).then r⟩
  · intro pair given
    obtain ⟨_, s'⟩ := pair
    obtain ⟨may, rfl, same⟩ := given
    exact ⟨may, readsNothing h same⟩

theorem Tells.endsUpdate (h : Tells index (view s) a) (follows : store.Follows view fails)
    (file : FileId) {entries : List (K × V)}
    (coded : ∀ p ∈ entries, Wire.ReadsBack p.1 ∧ Wire.ReadsBack p.2) :
    (update store file entries).Ends (index, s)
      (fun _ after => Replaces view (index, s) after a file entries)
      fun after => fails ∧ Reads view (index, s) after a := by
  refine h.endsFetchFor follows file (fun previous lists key mem => ?_) fun previous after lists r held => ?_
  · rcases mem_addAllNew.1 mem with old | new
    · exact h.coded.listed file key ((lists.2 key).1 old)
    · obtain ⟨p, hp, rfl⟩ := List.mem_map.1 new
      exact (coded p hp).1
  · exact endsChange (r.replaces lists held coded)

theorem Tells.endsRemoveFile (h : Tells index (view s) a) (follows : store.Follows view fails)
    (file : FileId) : (removeFile store file : Call K V σ Bool).Ends (index, s)
      (fun had after => Replaces view (index, s) after a file [] ∧ (had = true ↔ ∃ key, a.lists file key))
      fun after => fails ∧ Reads view (index, s) after a := by
  refine h.endsFetchFor follows file (fun previous lists key mem => ?_) fun previous after lists r held => ?_
  · exact h.coded.listed file key ((lists.2 key).1 mem)
  · refine endsBind (endsChange (endsPure ⟨?_, ?_⟩))
    · rw [dropEq]
      exact r.replaces lists held (by simp)
    · simp [← lists.2, List.eq_nil_iff_forall_not_mem]

theorem Tells.endsGet (h : Tells index (view s) a) (follows : store.Follows view fails) {key : K}
    (reads : Wire.ReadsBack key) : (get store key : Call K V σ (Occurrences V)).Ends (index, s)
      (fun c after => a.Shows c key ∧ c = after.1.held key ∧ Reads view (index, s) after a)
      fun after => fails ∧ Reads view (index, s) after a := by
  unfold get
  refine endsBind (endsNow ?_)
  cases there : index.containers.get? key with
  | some c =>
    have shows := (h.shown key (by rw [Dict.contains, there]; rfl)).2
    have held : index.held key = c := by
      rw [KeyIndex.held, there]
      rfl
    rw [held] at shows
    exact endsPure ⟨shows, held.symm, readsNothing h rfl⟩
  | none =>
    have new : index.containers.contains key = false := by
      rw [Dict.contains, there]
      rfl
    have clean : key ∉ index.dirtyKeys := fun d => by simp [h.dirty key d] at new
    refine endsBind (endsSecond ((endsLoad follows (h.clean key reads clean)).weaken ?_ ?_))
    · intro found s' given
      obtain ⟨same, told⟩ := given
      cases found with
      | none =>
        have blank : index.held key = .empty := by
          rw [KeyIndex.held, there]
          rfl
        exact endsPure ⟨told.shows, blank.symm, readsNothing h same⟩
      | some c =>
        have tells := (same ▸ h : Tells index (view s') a).cache reads told.shows
        have held : (index.cache key c).held key = c := by
          unfold KeyIndex.cache KeyIndex.held
          rw [Dict.get?_insert, if_pos rfl]
          rfl
        refine endsBind (endsChange (endsPure ⟨told.shows, held.symm, tells, same, ?_, rfl, rfl⟩))
        exact fun k c => keptCache new
    · intro s' given
      obtain ⟨may, same⟩ := given
      exact ⟨may, readsNothing h same⟩

/-! The same of an index that holds contents. -/

variable {files : Contents K V}

theorem Replaces.holds {before after : KeyIndex K V × σ} {file : FileId} {entries : List (K × V)}
    (r : Replaces view before after files.account file entries) (h : Holds before.1 (view before.2) files) :
    Holds after.1 (view after.2) (files.put file entries) := by
  refine holdsIff.2 ⟨?_, ?_⟩
  · rw [Contents.accountPut]
    exact r.tells
  · rw [r.store, r.version]
    exact h.stamped

theorem endsRemoveFile (follows : store.Follows view fails) (h : Holds index (view s) files)
    (file : FileId) : (removeFile store file : Call K V σ Bool).Ends (index, s)
      (fun had after => Replaces view (index, s) after files.account file [] ∧ had = !(files file).isEmpty)
      fun after => fails ∧ Reads view (index, s) after files.account := by
  refine (h.tells.endsRemoveFile follows file).weaken ?_ fun _ => id
  intro had after ⟨r, told⟩
  refine ⟨r, ?_⟩
  have listed : (∃ key, files.account.lists file key) ↔ files file ≠ [] := by
    simp [Contents.account, List.eq_nil_iff_forall_not_mem]
  rw [Bool.eq_iff_iff, told, listed]
  simp

end SymbolCatalog.KeyIndex
