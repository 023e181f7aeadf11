import SymbolCatalog.Proofs.KeyIndex.Faults

/-! What a flush that succeeds leaves in the store, whatever has failed before it: a record for each
key that occurs and for each file that has keys, no other one, and the version. -/
namespace SymbolCatalog.KeyIndex
open ExceptT StoreCall
variable {K V σ : Type} [Wire K] [Wire V]

structure Image [DecidableEq V] (version : UInt32) (entries : Entries) (files : Contents K V) : Prop where
  stamped : entries.get? versionKey = some (stamp version)
  keys : ∀ key, (∃ file value, (key, value) ∈ files file) → ∃ bytes, ∃ c : Occurrences V,
    entries.get? (containerKey key) = some bytes ∧ decodeRecord bytes = .ok c ∧ Shows c files key
  lists : ∀ file, files file ≠ [] → ∃ bytes, ∃ keys : List K,
    entries.get? (fileKey file) = some bytes ∧ decodeRecord bytes = .ok keys ∧ Lists keys (files file)
  onlyKeys : ∀ place, place.head? = some 0x01 → (entries.get? place).isSome →
    ∃ key, (∃ file value, (key, value) ∈ files file) ∧ place = containerKey key
  onlyLists : ∀ place, place.head? = some 0x02 → (entries.get? place).isSome →
    ∃ file, files file ≠ [] ∧ place = fileKey file
  apart : ∀ key key', (∃ file value, (key, value) ∈ files file) → (∃ file value, (key', value) ∈ files file) →
    containerKey key = containerKey key' → key = key'

variable [DecidableEq K] [DecidableEq V]

theorem Stored.image {version : UInt32} {entries : Entries} {files : Contents K V}
    (h : Stored version entries files) : Image version entries files := by
  have reads : ∀ {key}, (∃ file value, (key, value) ∈ files file) → Wire.ReadsBack key :=
    fun ⟨file, value, mem⟩ => (h.coded file _ mem).1
  constructor
  case stamped => exact h.stamped
  case keys =>
    intro key occurs
    obtain ⟨found, record, told⟩ := h.clean key (reads occurs) List.not_mem_nil
    obtain ⟨file, value, mem⟩ := occurs
    rcases recordAtCases record with ⟨-, rfl⟩ | ⟨bytes, c, there, decoded, rfl⟩
    · exact absurd mem (told file value)
    · exact ⟨bytes, c, there, decoded, told.2⟩
  case lists =>
    intro file full
    obtain ⟨found, record, -, lists⟩ := h.settled file List.not_mem_nil
    rcases recordAtCases record with ⟨-, rfl⟩ | ⟨bytes, keys, there, decoded, rfl⟩
    · exact absurd (lists.emptyIff.1 rfl) full
    · exact ⟨bytes, keys, there, decoded, lists⟩
  case onlyKeys =>
    intro place family there
    obtain ⟨rest, rfl⟩ : ∃ rest, place = containerFamily ++ rest := List.head?_eq_some_iff.1 family
    obtain ⟨key, readsKey, rfl⟩ := h.keyPlaces rest there
    refine ⟨key, ?_, rfl⟩
    obtain ⟨found, record, told⟩ := h.clean key readsKey List.not_mem_nil
    rcases recordAtCases record with ⟨absent, -⟩ | ⟨-, c, -, -, rfl⟩
    · change (entries.get? (containerKey key)).isSome at there
      rw [absent] at there
      cases there
    · exact (show files.account.Shows c key from told.2).inhabited told.1
  case onlyLists =>
    intro place family there
    obtain ⟨rest, rfl⟩ : ∃ rest, place = fileFamily ++ rest := List.head?_eq_some_iff.1 family
    obtain ⟨file, same⟩ := h.filePlaces rest there
    refine ⟨file, fun none => ?_, same⟩
    obtain ⟨found, record, full, lists⟩ := h.settled file List.not_mem_nil
    rcases recordAtCases record with ⟨absent, -⟩ | ⟨-, keys, -, -, rfl⟩
    · rw [same, absent] at there
      cases there
    · exact full (congrArg some (lists.emptyIff.2 none))
  case apart => exact fun key key' occurs occurs' => containerKeyInjective (reads occurs) (reads occurs')

variable {store : Store σ} {view : σ → Entries} {version : UInt32} {given : List (K × V)}

omit [DecidableEq K] [DecidableEq V] in
theorem Tellable.admits (tellable : Tellable given) {ops : List (Op K V)} (draws : ∀ op ∈ ops, op.Draws given)
    {l : Ledger K V} (files : l.files.Among given) (committed : l.committed.Among given) : l.AdmitsAll ops :=
  Ledger.admitsAmong tellable.few tellable.coded (fun _ _ mem => draws _ mem) (fun _ mem => draws _ mem)
    files committed

theorem Stored.goesOn (tellable : Tellable given) {files : Contents K V} (among : files.Among given)
    (follows : store.Follows view False) {s : σ} (stored : Stored version (view s) files)
    {index : KeyIndex K V} (holds : Holds index (view s) files) (same : index.version = version) :
    ∃ reopened s', openOn store version s = (.ok reopened, s') ∧ view s' = view s ∧
      ∀ ops : List (Op K V), (∀ op ∈ ops, op.Draws given) → ∃ answers answers' last last',
        ops.mapM (perform store) (index, s') = (.ok answers, last) ∧
        ops.mapM (perform store) (reopened, s') = (.ok answers', last') ∧
        AgreeAll SamePairs ops answers answers' := by
  obtain ⟨reopened, s', opened, new, kept⟩ := (endsOpen (K := K) (V := V) follows version s).surely
  have stamped : (view s).get? versionKey = some (stamp version) := stored.stamped
  rw [if_pos stamped] at kept
  refine ⟨reopened, s', opened, kept, fun ops draws => ?_⟩
  let l : Ledger K V := ⟨version, files, files⟩
  have admitted : l.AdmitsAll ops := tellable.admits draws among among
  have left : Represents view (index, s') l := ⟨kept ▸ holds, kept ▸ stored, same⟩
  have right : Represents view (reopened, s') l := ⟨new ▸ kept ▸ stored, kept ▸ stored, new ▸ rfl⟩
  obtain ⟨answers, last, run, correct, -⟩ := (endsRun follows left admitted).succeeds
  obtain ⟨answers', last', run', correct', -⟩ := (endsRun follows right admitted).succeeds
  exact ⟨answers, answers', last, last', run, run', Ledger.answersAgree correct correct'⟩

/-- Once a flush succeeds, whatever has failed before it, the store is the image of what the operations
that succeeded have said. An index that is then opened on it, on whatever store holds these entries,
answers all later operations as the flushed index does. -/
theorem flushLeavesImage (follows : store.Follows view True) (tellable : Tellable given) {s s' : σ}
    (new : view s = .empty) {index : KeyIndex K V} (opened : openOn store version s = (.ok index, s'))
    {ops : List (Op K V)} (draws : ∀ op ∈ ops, op.Draws given) {events : List (Event K V)}
    {state after : KeyIndex K V × σ} (ran : attemptAll store ops (index, s') = (events, state))
    (steady : ∀ event ∈ events, event.Steady) (flushed : flush store state = (.ok (), after)) :
    Image version (view after.2) ((Ledger.opened version).run ((succeeded events).map (·.1))).files ∧
    ∀ {τ : Type} (other : Store τ) (shown : τ → Entries), other.Follows shown False →
      ∀ t, shown t = view after.2 → ∃ reopened t', openOn other version t = (.ok reopened, t') ∧
        ∀ later : List (Op K V), (∀ op ∈ later, op.Draws given) → ∃ answers answers' last last',
          later.mapM (perform other) (after.1, t') = (.ok answers, last) ∧
          later.mapM (perform other) (reopened, t') = (.ok answers', last') ∧
          AgreeAll SamePairs later answers answers' := by
  have start := (endsOpenBlank follows version new given).answered opened
  obtain ⟨-, right, remembered⟩ := attemptsRemember follows tellable start ran draws steady
  have kind : ∀ op ∈ (succeeded events).map (·.1), op.isSteady ∨ op = .clear := by
    intro op mem
    obtain ⟨p, there, rfl⟩ := List.mem_map.1 mem
    obtain ⟨event, mem, same⟩ := memSucceeded there
    rw [← same]
    exact (steady event mem).imp id And.left
  rw [Recall.runLedger (m := .blank) rfl kind]
  obtain ⟨writes, stored⟩ := (endsFlush follows remembered.holds (remembered.among.fits tellable.few)).answered flushed
  rw [remembered.version] at stored
  refine ⟨stored.image, fun other shown follows' t same => ?_⟩
  rw [← same] at stored
  obtain ⟨reopened, t', opened', kept, goesOn⟩ := stored.goesOn tellable remembered.among follows'
    (same ▸ writes.holds remembered.holds) (writes.version.trans remembered.version)
  exact ⟨reopened, t', opened', goesOn⟩

def stubbornProbe : Probe := ⟨fun kind place? => kind = .put ∧ place? = some (containerKey (7 : UInt32)), []⟩

def stubbornOpened : KeyIndex UInt32 UInt32 × Probe × Entries :=
  (empty 1, ⟨stubbornProbe.fails, [.put, .clear, .get]⟩, Entries.empty.insert versionKey (stamp 1))

def stubbornAttempts : List (Op UInt32 UInt32) :=
  [.update ⟨1⟩ [(7, 70), (8, 80)], .flush, .update ⟨2⟩ [(8, 81)], .get 8, .flush, .removeFile ⟨1⟩]

theorem stubbornLeavesImage :
    openOn (Probe.wrap memoryStore) 1 (stubbornProbe, .empty) = (.ok stubbornOpened.1, stubbornOpened.2) ∧
    ∃ events state after, attemptAll (Probe.wrap memoryStore) stubbornAttempts stubbornOpened = (events, state) ∧
      events.map (·.answer.toOption.isSome) = [true, false, true, true, false, true] ∧
      flush (Probe.wrap memoryStore) state = (.ok (), after) ∧
      Image 1 after.2.2 ((Ledger.opened 1).run ((succeeded events).map (·.1))).files ∧
      ∀ {τ : Type} (other : Store τ) (shown : τ → Entries), other.Follows shown False →
        ∀ t, shown t = after.2.2 → ∃ reopened t', openOn other 1 t = (.ok reopened, t') ∧
          ∀ later : List (Op UInt32 UInt32), (∀ op ∈ later, op.Draws [(7, 70), (8, 80), (8, 81)]) →
            ∃ answers answers' last last',
              later.mapM (perform other) (after.1, t') = (.ok answers, last) ∧
              later.mapM (perform other) (reopened, t') = (.ok answers', last') ∧
              AgreeAll SamePairs later answers answers' := by
  have draws : ∀ op ∈ stubbornAttempts, op.Draws [(7, 70), (8, 80), (8, 81)] := by
    simp [stubbornAttempts, Op.Draws, Wire.readsBack_word, or_imp, forall_and]
  have kind : ∀ op ∈ stubbornAttempts, op.isSteady := by
    simp [stubbornAttempts, Op.isSteady]
  have opened : openOn (Probe.wrap memoryStore) 1 (stubbornProbe, .empty) =
    (.ok stubbornOpened.1, stubbornOpened.2) := rfl
  have answered : (attemptAll (Probe.wrap memoryStore) stubbornAttempts stubbornOpened).1.map
      (·.answer.toOption.isSome) = [true, false, true, true, false, true] := by decide +kernel
  have done : (flush (Probe.wrap memoryStore)
      (attemptAll (Probe.wrap memoryStore) stubbornAttempts stubbornOpened).2).1 = .ok () := by decide +kernel
  rcases ran : attemptAll (Probe.wrap memoryStore) stubbornAttempts stubbornOpened with ⟨events, state⟩
  rw [ran] at answered done
  rcases flushed : flush (Probe.wrap memoryStore) state with ⟨answer, after⟩
  rw [flushed] at done
  cases done
  exact ⟨opened, events, state, after, rfl, answered, flushed,
    flushLeavesImage probeFollows (tellableWords (by decide)) rfl opened draws ran (steadyAttempts ran kind) flushed⟩

end SymbolCatalog.KeyIndex
