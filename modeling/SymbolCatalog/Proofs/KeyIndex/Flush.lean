import SymbolCatalog.Proofs.KeyIndex.Calls
import SymbolCatalog.Proofs.KeyIndex.Written

/-! The calls of an index that write to the store. A flush that fails has written a part; what is
left is still to be written. -/
namespace SymbolCatalog.KeyIndex
open ExceptT StoreCall
variable {K V σ : Type} [DecidableEq K] [DecidableEq V] [Wire K] [Wire V]
variable {store : Store σ} {view : σ → Entries} {fails : Prop}

structure Writes (view : σ → Entries) (before after : KeyIndex K V × σ) (a : Account K V) : Prop where
  tells : Tells after.1 (view after.2) a
  version : after.1.version = before.1.version
  containers : after.1.containers = before.1.containers
  beside : Beside (view before.2) (view after.2)

/- The store tells of the given keys and files what the index tells, and of the others what it kept. -/
def Overwrites (entries entries' : Entries) (a : Account K V) (keys : List K) (files : List FileId) : Prop :=
  ∀ b, Keeps entries b → Keeps entries' (b.overwritten a keys files)

structure Stretch (index : KeyIndex K V) (keys : List K) (files : List FileId) : Prop where
  keyPart : keys <+: index.dirtyKeys
  filePart : files <+: index.dirtyFiles
  order : files = [] ∨ keys = index.dirtyKeys

variable {index : KeyIndex K V} {s : σ} {a : Account K V}

theorem writesNothing (h : Tells index (view s) a) {s' : σ} (same : view s' = view s) :
    Writes view (index, s) (index, s') a :=
  ⟨same ▸ h, rfl, rfl, fun place _ _ => congrArg (·.get? place) same⟩

theorem Writes.then {one two three : KeyIndex K V × σ} (first : Writes view one two a)
    (second : Writes view two three a) : Writes view one three a :=
  ⟨second.tells, second.version.trans first.version, second.containers.trans first.containers,
    first.beside.then second.beside⟩

theorem Writes.holds {before after : KeyIndex K V × σ} {files : Contents K V}
    (w : Writes view before after files.account) (h : Holds before.1 (view before.2) files) :
    Holds after.1 (view after.2) files :=
  holdsIff.2 ⟨w.tells, by
    rw [w.beside _ (by simp [versionKey]) (by simp [versionKey]), w.version]
    exact h.stamped⟩

theorem overwritesNothing (entries : Entries) (a : Account K V) : Overwrites entries entries a [] [] := by
  intro b keeps
  rwa [Account.overwrittenNothing]

theorem Overwrites.key {entries entries' entries'' : Entries} {keys : List K} {files : List FileId} {key : K}
    (first : Overwrites entries entries' a keys files) (second : Overwrites entries' entries'' a [key] []) :
    Overwrites entries entries'' a (keys ++ [key]) files := by
  intro b keeps
  rw [← Account.overwrittenKey]
  exact second _ (first b keeps)

theorem Overwrites.file {entries entries' entries'' : Entries} {keys : List K} {files : List FileId}
    {file : FileId} (first : Overwrites entries entries' a keys files)
    (second : Overwrites entries' entries'' a [] [file]) :
    Overwrites entries entries'' a keys (files ++ [file]) := by
  intro b keeps
  rw [← Account.overwrittenFile]
  exact second _ (first b keeps)

theorem Tells.writesKey (h : Tells index (view s) a) (fits : a.Fits) {key : K}
    (there : index.containers.contains key) (s' : σ)
    (assigned : view s' = (view s).assign (containerKey key) (index.keyRecord key)) :
    Writes view (index, s) (index.keyWritten key, s') a ∧ Overwrites (view s) (view s') a [key] [] := by
  obtain ⟨reads, shows⟩ := h.shown key there
  have told := h.keyRecord fits there
  refine ⟨⟨?_, rfl, rfl, assigned ▸ besideKey (view s) key _⟩, fun b keeps => ?_⟩
  · rw [assigned]
    exact h.keyWritten h.coded reads told (fun _ => shows) (fun _ _ => rfl) rfl
  · obtain ⟨found, record, told⟩ := told
    rw [assigned]
    refine keeps.keyWritten (keeps.coded.overwritten h.coded _ _) reads
      ⟨found, record, told.congr fun file value => ?_⟩ (fun held => ?_) (fun k other => ?_) ?_
    · simp [Account.overwritten]
    · simp [empty, Dict.contains] at held
    · ext
      simp [Account.overwritten, other]
    · ext
      simp [Account.overwritten]

theorem Tells.writesFile (h : Tells index (view s) a) (fits : a.Fits) {file : FileId}
    (gone : index.forward.get? file = none → ∀ key, ¬ a.lists file key) (s' : σ)
    (assigned : view s' = (view s).assign (fileKey file) (index.fileRecord file)) :
    Writes view (index, s) (index.fileWritten file, s') a ∧ Overwrites (view s) (view s') a [] [file] := by
  have told := h.fileRecord fits gone
  refine ⟨⟨?_, rfl, rfl, assigned ▸ besideFile (view s) file _⟩, fun b keeps => ?_⟩
  · rw [assigned]
    exact h.fileWritten h.coded told (h.listed file) (fun _ _ => rfl) rfl
  · obtain ⟨found, record, full, lists⟩ := told
    rw [assigned]
    refine keeps.fileWritten (keeps.coded.overwritten h.coded _ _)
      ⟨found, record, full, lists.congr fun key => ?_⟩ (fun keys known => ?_) (fun f other => ?_) ?_
    · simp [Account.overwritten]
    · simp [empty] at known
    · ext
      simp [Account.overwritten, other]
    · ext
      simp [Account.overwritten]

theorem Tells.endsWriteKey (h : Tells index (view s) a) (follows : store.FollowsUnder containerFamily view fails)
    (fits : a.Fits) {key : K} (there : index.containers.contains key) :
    (writeKey store key : Call K V σ Unit).Ends (index, s)
      (fun _ after => after.1 = index.keyWritten key ∧ Writes view (index, s) after a ∧
        Overwrites (view s) (view after.2) a [key] [])
      fun after => fails ∧ after.1 = index ∧ view after.2 = view s := by
  have written := h.writesKey fits there
  unfold writeKey
  refine endsBind (endsNow ?_)
  dsimp only
  unfold KeyIndex.keyRecord at written
  split at written
  · next empty =>
    rw [if_pos empty]
    refine endsBind (endsSecond ((follows.remove _ s).weaken ?_ fun s' given => ⟨given.1, rfl, given.2⟩))
    exact fun _ s' same => endsChange ⟨rfl, written s' same⟩
  · next full =>
    rw [if_neg full]
    refine endsBind (endsSecond ((follows.put _ _ s).weaken ?_ fun s' given => ⟨given.1, rfl, given.2⟩))
    exact fun _ s' same => endsChange ⟨rfl, written s' same⟩

theorem Tells.endsWriteFile (h : Tells index (view s) a) (follows : store.FollowsUnder fileFamily view fails)
    (fits : a.Fits) {file : FileId} (gone : index.forward.get? file = none → ∀ key, ¬ a.lists file key) :
    (writeFile store file : Call K V σ Unit).Ends (index, s)
      (fun _ after => after.1 = index.fileWritten file ∧ Writes view (index, s) after a ∧
        Overwrites (view s) (view after.2) a [] [file])
      fun after => fails ∧ after.1 = index ∧ view after.2 = view s := by
  have written := h.writesFile fits gone
  unfold writeFile
  refine endsBind (endsNow ?_)
  unfold KeyIndex.fileRecord at written
  cases known : index.forward.get? file with
  | none =>
    rw [known] at written
    refine endsBind (endsSecond ((follows.remove _ s).weaken ?_ fun s' given => ⟨given.1, rfl, given.2⟩))
    exact fun _ s' same => endsChange ⟨rfl, written s' same⟩
  | some keys =>
    rw [known] at written
    refine endsBind (endsSecond ((follows.put _ _ s).weaken ?_ fun s' given => ⟨given.1, rfl, given.2⟩))
    exact fun _ s' same => endsChange ⟨rfl, written s' same⟩

theorem Tells.endsWriteKeys (h : Tells index (view s) a) (follows : store.FollowsUnder containerFamily view fails)
    (fits : a.Fits) : (index.dirtyKeys.forM (writeKey store) : Call K V σ Unit).Ends (index, s)
      (fun _ after => Writes view (index, s) after a ∧ after.1.dirtyKeys = [] ∧
        after.1.dirtyFiles = index.dirtyFiles ∧
        Overwrites (view s) (view after.2) a index.dirtyKeys [])
      fun after => fails ∧ Writes view (index, s) after a ∧
        ∃ keys, keys <+: index.dirtyKeys ∧ Overwrites (view s) (view after.2) a keys [] := by
  -- The keys that are still dirty are among those still to come.
  refine endsForM (fun rest after => Writes view (index, s) after a ∧
      (∀ key ∈ rest, after.1.containers.contains key) ∧ (∀ key ∈ after.1.dirtyKeys, key ∈ rest) ∧
      after.1.dirtyFiles = index.dirtyFiles ∧
      ∃ keys, keys ++ rest = index.dirtyKeys ∧ Overwrites (view s) (view after.2) a keys [])
    ⟨writesNothing h rfl, h.dirty, fun _ => id, rfl, [], rfl, overwritesNothing _ a⟩ ?_ ?_
  · intro after ⟨writes, _, dirty, files, keys, all, overwrites⟩
    rw [List.append_nil] at all
    subst all
    refine ⟨writes, ?_, files, overwrites⟩
    exact List.eq_nil_iff_forall_not_mem.2 fun key hk => List.not_mem_nil (dirty key hk)
  · intro key rest ⟨index', s'⟩ ⟨writes, there, dirty, files, keys, all, overwrites⟩
    refine (writes.tells.endsWriteKey follows fits (there key (.head _))).weaken ?_ ?_
    · intro _ ⟨_, s''⟩ ⟨same, writes', overwrites'⟩
      cases same
      refine ⟨writes.then writes', fun k hk => there k (.tail _ hk), fun k hk => ?_, files,
        keys ++ [key], by simp [← all], overwrites.key overwrites'⟩
      obtain ⟨mem, other⟩ := List.mem_filter.1 hk
      exact (List.mem_cons.1 (dirty k mem)).resolve_left (by simpa using other)
    · intro ⟨_, s''⟩ ⟨may, same, unchanged⟩
      cases same
      refine ⟨may, writes.then (writesNothing writes.tells unchanged), keys, ⟨_, all⟩, ?_⟩
      exact unchanged ▸ overwrites

theorem Tells.endsWriteFiles (h : Tells index (view s) a) (follows : store.FollowsUnder fileFamily view fails)
    (fits : a.Fits) (clean : index.dirtyKeys = []) :
    (index.dirtyFiles.forM (writeFile store) : Call K V σ Unit).Ends (index, s)
      (fun _ after => Writes view (index, s) after a ∧ after.1.dirtyKeys = [] ∧ after.1.dirtyFiles = [] ∧
        Overwrites (view s) (view after.2) a [] index.dirtyFiles)
      fun after => fails ∧ Writes view (index, s) after a ∧
        ∃ files, files <+: index.dirtyFiles ∧ Overwrites (view s) (view after.2) a [] files := by
  refine endsForM (fun rest after => Writes view (index, s) after a ∧ after.1.dirtyKeys = [] ∧
      (∀ file ∈ rest, after.1.forward.get? file = none → ∀ key, ¬ a.lists file key) ∧
      (∀ file ∈ after.1.dirtyFiles, file ∈ rest) ∧
      ∃ files, files ++ rest = index.dirtyFiles ∧ Overwrites (view s) (view after.2) a [] files)
    ⟨writesNothing h rfl, clean, h.gone, fun _ => id, [], rfl, overwritesNothing _ a⟩ ?_ ?_
  · intro after ⟨writes, keys, _, dirty, files, all, overwrites⟩
    rw [List.append_nil] at all
    subst all
    refine ⟨writes, keys, ?_, overwrites⟩
    exact List.eq_nil_iff_forall_not_mem.2 fun file hf => List.not_mem_nil (dirty file hf)
  · intro file rest ⟨index', s'⟩ ⟨writes, keys, gone, dirty, files, all, overwrites⟩
    refine (writes.tells.endsWriteFile follows fits (gone file (.head _))).weaken ?_ ?_
    · intro _ ⟨_, s''⟩ ⟨same, writes', overwrites'⟩
      cases same
      refine ⟨writes.then writes', keys, fun f hf => gone f (.tail _ hf), fun f hf => ?_,
        files ++ [file], by simp [← all], overwrites.file overwrites'⟩
      obtain ⟨mem, other⟩ := List.mem_filter.1 hf
      exact (List.mem_cons.1 (dirty f mem)).resolve_left (by simpa using other)
    · intro ⟨_, s''⟩ ⟨may, same, unchanged⟩
      cases same
      refine ⟨may, writes.then (writesNothing writes.tells unchanged), files, ⟨_, all⟩, ?_⟩
      exact unchanged ▸ overwrites

theorem Overwrites.then {entries entries' entries'' : Entries} {keys : List K} {files : List FileId}
    (first : Overwrites entries entries' a keys []) (second : Overwrites entries' entries'' a [] files) :
    Overwrites entries entries'' a keys files := by
  intro b keeps
  have both := second _ (first b keeps)
  rwa [Account.overwrittenBoth] at both

theorem Tells.endsFlush (h : Tells index (view s) a) (follows : store.Follows view fails) (fits : a.Fits) :
    (flush store : Call K V σ Unit).Ends (index, s)
      (fun _ after => Writes view (index, s) after a ∧ Keeps (view after.2) a)
      fun after => fails ∧ Writes view (index, s) after a ∧
        ∃ keys files, Stretch index keys files ∧ Overwrites (view s) (view after.2) a keys files := by
  unfold flush
  refine endsBind (endsNow (endsBind ((h.endsWriteKeys (follows.under _) fits).weaken ?_ ?_)))
  · intro _ ⟨index', s'⟩ ⟨writes, keys, files, overwrites⟩
    refine endsBind (endsNow (endsBind ((writes.tells.endsWriteFiles (follows.under _) fits keys).weaken ?_ ?_)))
    · intro _ ⟨index'', s''⟩ ⟨writes', keys', written, overwrites'⟩
      have whole := writes.then writes'
      have all := overwrites.then overwrites'
      rw [files] at all
      refine endsSecond ((follows.flush s'').weaken ?_ ?_)
      · intro _ last same
        exact ⟨whole.then (writesNothing whole.tells same), same.symm ▸ whole.tells.keeps keys' written⟩
      · intro last ⟨may, same⟩
        refine ⟨may, whole.then (writesNothing whole.tells same), _, _, ?_, same.symm ▸ all⟩
        exact ⟨List.prefix_refl _, List.prefix_refl _, .inr rfl⟩
    · intro after ⟨may, writes', done, part, overwrites'⟩
      rw [files] at part
      refine ⟨may, writes.then writes', _, done, ⟨List.prefix_refl _, part, .inr rfl⟩, ?_⟩
      exact overwrites.then overwrites'
  · intro after ⟨may, writes, done, part, overwrites⟩
    exact ⟨may, writes, done, [], ⟨part, List.nil_prefix, .inl rfl⟩, overwrites⟩

theorem endsFlush (follows : store.Follows view fails) {files : Contents K V}
    (h : Holds index (view s) files) (fits : files.Fits) :
    (flush store : Call K V σ Unit).Ends (index, s)
      (fun _ after => Writes view (index, s) after files.account ∧ Stored index.version (view after.2) files)
      fun after => fails ∧ Writes view (index, s) after files.account := by
  refine (h.tells.endsFlush follows fits.account).weaken ?_ fun _ ⟨may, writes, _⟩ => ⟨may, writes⟩
  intro _ after ⟨writes, keeps⟩
  have holds : Holds after.1 (view after.2) files := writes.holds h
  have stamped := holds.stamped
  rw [writes.version] at stamped
  exact ⟨writes, holdsIff.2 ⟨keepsIff.2 keeps, stamped⟩⟩

omit [Wire K] [Wire V] [DecidableEq K] [DecidableEq V] in
theorem endsClear (follows : store.Follows view fails) (index : KeyIndex K V) (s : σ) :
    (clear store : Call K V σ Unit).Ends (index, s)
      (fun _ after => after.1 = empty index.version ∧
        view after.2 = Entries.empty.insert versionKey (stamp index.version))
      fun after => fails ∧ after.1 = empty index.version ∧
        (view after.2 = view s ∨ view after.2 = .empty) := by
  unfold clear
  refine endsBind (endsNow (endsBind (endsChange (endsBind (endsSecond ?_)))))
  refine (follows.clear s).weaken ?_ fun s' ⟨may, same⟩ => ⟨may, rfl, .inl same⟩
  intro _ s' gone
  refine endsSecond ((follows.put _ _ s').weaken ?_ ?_)
  · intro _ s'' put
    exact ⟨rfl, put.trans (by rw [gone])⟩
  · intro s'' h
    obtain ⟨may, same⟩ := h
    exact ⟨may, rfl, .inr (same.trans gone)⟩

omit [Wire K] [Wire V] [DecidableEq K] [DecidableEq V] in
theorem endsOpen (follows : store.Follows view fails) (version : UInt32) (s : σ) :
    (openOn store version : StoreCall σ (KeyIndex K V)).Ends s
      (fun index s' => index = empty version ∧ view s' =
        if (view s).get? versionKey = some (stamp version) then view s
        else Entries.empty.insert versionKey (stamp version))
      fun s' => fails ∧ (view s' = view s ∨ view s' = .empty) := by
  unfold openOn
  refine endsBind ((follows.get _ s).weaken ?_ fun s' ⟨may, same⟩ => ⟨may, .inl same⟩)
  intro stamp? s' h
  obtain ⟨same, rfl⟩ := h
  by_cases match_ : (view s).get? versionKey = some (stamp version)
  · rw [if_neg (not_not.2 match_), if_pos match_]
    exact endsPure ⟨rfl, same⟩
  · rw [if_pos match_, if_neg match_]
    refine endsBind ((follows.clear s').weaken ?_ ?_)
    · intro _ s'' gone
      refine endsBind ((follows.put _ _ s'').weaken ?_ ?_)
      · intro _ s''' put
        exact endsPure ⟨rfl, put.trans (by rw [gone])⟩
      · intro s''' h
        obtain ⟨may, same'⟩ := h
        exact ⟨may, .inr (same'.trans gone)⟩
    · intro s'' h
      obtain ⟨may, same'⟩ := h
      exact ⟨may, .inl (same'.trans same)⟩

end SymbolCatalog.KeyIndex
