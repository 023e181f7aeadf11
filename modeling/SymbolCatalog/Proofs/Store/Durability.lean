import SymbolCatalog.Proofs.Store.Snapshot

/-! What a snapshot file holds while a store is used: the entries of the last flush that succeeded,
whichever calls of the file system fail, and the entries in memory whenever the store is clean. -/
namespace SymbolCatalog.FileStore
open ExceptT

inductive Op where
  | put (key value : Bytes)
  | remove (key : Bytes)
  | clear
  | flush
  | reopen (level : CompressionLevel)
  | disturb (parent : Bool) (temporary : PathContent) (refused : DiskCall → Option IoKind)

def perform (codec : Codec) : Op → StoreCall (FileStore × Site) Unit
  | .put key value => (fileStoreWith codec).put key value
  | .remove key => (fileStoreWith codec).remove key
  | .clear => (fileStoreWith codec).clear
  | .flush => (fileStoreWith codec).flush
  | .reopen level => do
    let (_, site) ← getThe (FileStore × Site)
    match openWith codec level site with
    | .ok store => set (store, site)
    | .error e => throw e
  | .disturb parent temporary refused =>
    modifyThe (FileStore × Site) fun (store, site) =>
      (store, { site with parent := parent, temporary := temporary, refused := refused })

structure History where
  store : FileStore
  site : Site
  flushed : Entries

def History.after (codec : Codec) (history : History) (op : Op) : History :=
  let (answer, store, site) := perform codec op (history.store, history.site)
  match op, answer with
  | .flush, .ok () => ⟨store, site, history.store.entries⟩
  | _, _ => ⟨store, site, history.flushed⟩

variable {codec : Codec}

/-! What an opened store is depends on the snapshot alone, but for the level. -/

theorem openSame {level : CompressionLevel} {site after : Site} (same : after.snapshot = site.snapshot) :
    openWith codec level after = openWith codec level site := by
  rw [openWith, same, openWith]

theorem opensAtAny {level : CompressionLevel} {site : Site} {store : FileStore}
    (opened : openWith codec level site = .ok store) :
    store.dirty = false ∧ ∀ reader, openWith codec reader site = .ok ⟨reader, store.entries, false⟩ := by
  cases there : site.snapshot with
  | absent =>
    rw [openWith, there] at opened
    cases opened
    refine ⟨rfl, fun reader => ?_⟩
    rw [openWith, there]
  | directory =>
    rw [openWith, there] at opened
    cases opened
  | file bytes =>
    obtain ⟨decoded, same⟩ := openedFile there opened
    refine ⟨same ▸ rfl, fun reader => ?_⟩
    rw [openThere there, decoded]
    rfl

/-! A flush of a store that has changed is a save; one that fails leaves the store as it was. -/

variable {store : FileStore} {site : Site}

theorem flushClean (clean : store.dirty = false) : flushWith codec (store, site) = (.ok (), store, site) := by
  obtain ⟨level, entries, dirty⟩ := store
  cases clean
  rfl

theorem runSecond {call : StoreCall Site Unit} : call.second (store, site) = ((call site).1, store, (call site).2) := rfl

theorem flushDirty (dirty : store.dirty = true) : flushWith codec (store, site) =
    match saveWith codec store.level store.entries site with
    | (.ok (), after) => (.ok (), { store with dirty := false }, after)
    | (.error e, after) => (.error e, store, after) := by
  obtain ⟨level, entries, _⟩ := store
  cases dirty
  change (tryCatch (saveWith codec level entries).second _ : StoreCall (FileStore × Site) Unit)
    (⟨level, entries, false⟩, site) = _
  rw [runTry, runSecond]
  rcases saveWith codec level entries site with ⟨_ | _, after⟩ <;> rfl

/- The snapshot opens, at any level, to the entries last flushed, and those are the entries in
memory if the store is clean. -/
structure Durable (codec : Codec) (history : History) : Prop where
  stored : ∀ reader, openWith codec reader history.site = .ok ⟨reader, history.flushed, false⟩
  clean : history.store.dirty = false → history.store.entries = history.flushed

theorem removeMarks (key : Bytes) : store.remove key = store ∨ (store.remove key).dirty = true := by
  unfold remove
  split
  · exact .inr rfl
  · exact .inl rfl

theorem clearMarks : store.clear = store ∨ store.clear.dirty = true := by
  unfold clear
  split
  · exact .inl rfl
  · exact .inr rfl

variable {history : History}

theorem Durable.changed (durable : Durable codec history) {store : FileStore}
    (marked : store = history.store ∨ store.dirty = true) : Durable codec { history with store := store } where
  stored := durable.stored
  clean := by
    intro clean
    rcases marked with rfl | dirty
    · exact durable.clean clean
    · exact absurd (clean.symm.trans dirty) Bool.false_ne_true

theorem Durable.flush (lossless : codec.Lossless) (durable : Durable codec history) : Durable codec (history.after codec .flush) := by
  obtain ⟨store, site, flushed⟩ := history
  rw [History.after, show perform codec .flush = flushWith codec from rfl]
  dsimp only
  cases dirty : store.dirty with
  | false =>
    rw [flushClean dirty]
    exact ⟨durable.clean dirty ▸ durable.stored, fun _ => rfl⟩
  | true =>
    rw [flushDirty dirty]
    rcases saved : saveWith codec store.level store.entries site with ⟨_ | _, after⟩
    · have kept := (endsSave site).stopped saved
      refine ⟨fun reader => (openSame kept).trans (durable.stored reader), fun clean => ?_⟩
      exact absurd (clean.symm.trans dirty) Bool.false_ne_true
    · exact ⟨openSaved lossless saved, fun _ => rfl⟩

theorem Durable.after (lossless : codec.Lossless) (durable : Durable codec history) (op : Op) :
    Durable codec (history.after codec op) := by
  cases op with
  | put key value => exact durable.changed (.inr rfl)
  | remove key => exact durable.changed (removeMarks key)
  | clear => exact durable.changed clearMarks
  | flush => exact durable.flush lossless
  | reopen level =>
    have reopened : perform codec (.reopen level) (history.store, history.site) =
        (.ok (), ⟨level, history.flushed, false⟩, history.site) := by
      change (match openWith codec level history.site with
        | .ok store => set (store, history.site)
        | .error e => throw e : StoreCall (FileStore × Site) Unit) (history.store, history.site) = _
      rw [durable.stored level]
      rfl
    change Durable codec (History.after codec history (.reopen level))
    rw [History.after, reopened]
    exact ⟨durable.stored, fun _ => rfl⟩
  | disturb parent temporary refused =>
    exact ⟨fun reader => (openSame rfl).trans (durable.stored reader), durable.clean⟩

theorem Durable.afterAll (lossless : codec.Lossless) (durable : Durable codec history) (ops : List Op) :
    Durable codec (ops.foldl (History.after codec) history) := by
  induction ops generalizing history with
  | nil => exact durable
  | cons op rest ih => exact ih (durable.after lossless op)

theorem staysDirty (marked : history.store.dirty = true) {op : Op} (noFlush : op ≠ .flush)
    (noReopen : ∀ level, op ≠ .reopen level) : (history.after codec op).store.dirty = true := by
  cases op with
  | put key value => rfl
  | remove key => exact (removeMarks key).elim (fun same => (congrArg dirty same).trans marked) id
  | clear => exact clearMarks.elim (fun same => (congrArg dirty same).trans marked) id
  | flush => exact absurd rfl noFlush
  | reopen level => exact absurd rfl (noReopen level)
  | disturb parent temporary refused => exact marked

theorem staysDirtyOver (marked : history.store.dirty = true) {ops : List Op}
    (quiet : ∀ op ∈ ops, op ≠ .flush ∧ ∀ level, op ≠ .reopen level) :
    (ops.foldl (History.after codec) history).store.dirty = true := by
  induction ops generalizing history with
  | nil => exact marked
  | cons op rest ih =>
    obtain ⟨noFlush, noReopen⟩ := quiet op (.head _)
    exact ih (staysDirty marked noFlush noReopen) fun op mem => quiet op (.tail _ mem)

theorem flushFailed {e : StorageError} {after : FileStore × Site} (failed : flushWith codec (store, site) = (.error e, after)) :
    store.dirty = true ∧ after.1 = store := by
  cases dirty : store.dirty with
  | false =>
    rw [flushClean dirty] at failed
    cases failed
  | true =>
    rw [flushDirty dirty] at failed
    rcases saved : saveWith codec store.level store.entries site with ⟨_ | _, disk⟩
    · rw [saved] at failed
      cases failed
      exact ⟨rfl, rfl⟩
    · rw [saved] at failed
      cases failed

/-- A snapshot file keeps what was flushed. After any run of calls on an opened store, whichever
calls of the file system fail in it, the snapshot opens to the entries of the last flush that
succeeded (to those found at first if there was none), and to the entries in memory whenever the
store is clean. A flush that fails leaves the memory as it was and the store to be saved: it stays
so, and the next flush saves it. -/
theorem snapshotDurable (codec : Codec) (lossless : codec.Lossless) {level : CompressionLevel} {site : Site}
    {store : FileStore} (opened : openWith codec level site = .ok store) (ops : List Op) :
    let last := ops.foldl (History.after codec) ⟨store, site, store.entries⟩
    (∀ reader, openWith codec reader last.site = .ok ⟨reader, last.flushed, false⟩) ∧
    (last.store.dirty = false → ∀ reader, openWith codec reader last.site = .ok ⟨reader, last.store.entries, false⟩) ∧
    ∀ e after, flushWith codec (last.store, last.site) = (.error e, after) → after.1 = last.store ∧
      ∀ more : List Op, (∀ op ∈ more, op ≠ .flush ∧ ∀ level, op ≠ .reopen level) →
        let later := more.foldl (History.after codec) ⟨after.1, after.2, last.flushed⟩
        later.store.dirty = true ∧
        (flushWith codec (later.store, later.site)).1 = (saveWith codec later.store.level later.store.entries later.site).1 ∧
        (flushWith codec (later.store, later.site)).2.2 = (saveWith codec later.store.level later.store.entries later.site).2 := by
  intro last
  obtain ⟨clean, stored⟩ := opensAtAny opened
  have start : Durable codec ⟨store, site, store.entries⟩ := ⟨stored, fun _ => rfl⟩
  have durable : Durable codec last := start.afterAll lossless ops
  refine ⟨durable.stored, fun clean => durable.clean clean ▸ durable.stored, ?_⟩
  intro e after failed
  obtain ⟨dirty, same⟩ := flushFailed failed
  refine ⟨same, fun more quiet => ?_⟩
  intro later
  have dirty : later.store.dirty = true := staysDirtyOver (same ▸ dirty) quiet
  refine ⟨dirty, ?_⟩
  rw [flushDirty dirty]
  rcases saveWith codec later.store.level later.store.entries later.site with ⟨_ | _, disk⟩
  · exact ⟨rfl, rfl⟩
  · exact ⟨rfl, rfl⟩

def refusedRun : List Op :=
  [.put [1] [2], .flush, .clear,
    .disturb true (.file [3]) fun call => if call = .rename then some .other else none]

def refusedHistory : History := refusedRun.foldl (History.after .zstd) ⟨⟨.off, .empty, false⟩, .bare, .empty⟩

theorem refusedRunDurable : Codec.zstd.Lossless ∧ openAt .off .bare = .ok ⟨.off, .empty, false⟩ ∧
    refusedHistory.store = ⟨.off, .empty, true⟩ ∧
    openAt .maximum refusedHistory.site = .ok ⟨.maximum, .ofList [([1], [2])], false⟩ ∧
    ∃ e after, flushWith .zstd (refusedHistory.store, refusedHistory.site) = (.error e, after) ∧
      after.1 = refusedHistory.store ∧ (flushWith .zstd after).2.2 = (saveWith .zstd .off .empty after.2).2 := by
  have opened : openAt .off .bare = .ok ⟨.off, .empty, false⟩ := rfl
  obtain ⟨stored, -, failing⟩ := snapshotDurable .zstd Codec.zstdLossless opened refusedRun
  obtain ⟨e, after, failed⟩ : ∃ e after,
      flushWith .zstd (refusedHistory.store, refusedHistory.site) = (.error e, after) := ⟨_, _, rfl⟩
  obtain ⟨same, next⟩ := failing e after failed
  obtain ⟨-, -, written⟩ := next [] fun op mem => absurd mem List.not_mem_nil
  refine ⟨Codec.zstdLossless, opened, rfl, stored .maximum, e, after, failed, same, ?_⟩
  exact written.trans (by rw [List.foldl_nil, same]; rfl)

end SymbolCatalog.FileStore
