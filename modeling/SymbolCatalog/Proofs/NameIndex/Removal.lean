import SymbolCatalog.Proofs.KeyIndex.Visiting
import SymbolCatalog.Proofs.NameIndex.Restart
import SymbolCatalog.Proofs.NameIndex.Transparency

/-! What a removal that fails leaves behind. The tree of the file goes first, and nothing puts it back
when the names cannot be read: they stay, and point into a tree that is gone. -/
namespace SymbolCatalog.NameIndex
open ExceptT
variable {σ τ α : Type}

def Request.Fits : Request → Prop
  | .indexFile _ t => t.Fits
  | .find name => Short name
  | _ => True

inductive Reached (store : Store σ) (view : σ → Entries) : NameIndex × σ → Prop where
  | opened {version capacity s index s'} (other : (view s).get? KeyIndex.versionKey ≠ some (KeyIndex.stamp version))
      (run : openOn store version capacity s = (.ok index, s')) : Reached store view (index, s')
  | served {state request} (before : Reached store view state) (fits : request.Fits) (capacity : Nat) :
      Reached store view (serve store capacity request state).2
  | defaulted {state} (before : Reached store view state) (reference : Reference) (text : String) :
      Reached store view (setDefault store reference text state).2
  | visited {state} {α : Type} (before : Reached store view state) (scope : Scope) (accepts : String → Bool)
      (visitor : α → String → Bool × α) (start : α) :
      Reached store view (visitNames store scope accepts visitor start state).2

def anyCopy : Copies := fun _ _ _ => True

theorem anyDecoded (trees : Trees) : anyCopy.Decoded trees := fun _ _ _ _ _ => trivial

theorem HasTrees.foundNone {index : NameIndex} {entries : Entries} {trees : Trees}
    (h : HasTrees anyCopy index entries trees) {file : FileId} {found : Option Tree}
    (given : Given index trees file found) : found = none ↔ trees file = none := by
  generalize same : trees file = known
  have rel := h.givenRel (anyDecoded trees) given
  rw [same] at rel
  cases rel <;> simp

/- The names in the index, the names in the store, and the trees in the store are each those of some
trees, but not of the same. -/
structure Strayed (view : σ → Entries) (version : UInt32) (state : NameIndex × σ) (named saved given : Trees) : Prop where
  names : KeyIndex.Holds state.1.names (view state.2) named.contents
  stored : KeyIndex.Stored version (view state.2) saved.contents
  has : HasTrees anyCopy state.1 (view state.2) given
  fit : named.Fit
  fitSaved : saved.Fit

def Strays (view : σ → Entries) (state : NameIndex × σ) : Prop :=
  ∃ version named saved given, Strayed view version state named saved given

variable {view : σ → Entries} {version : UInt32} {named saved given : Trees}

namespace Strayed
variable {state after : NameIndex × σ}

theorem strays (h : Strayed view version state named saved given) : Strays view state := ⟨_, _, _, _, h⟩

theorem sameVersion (h : Strayed view version state named saved given) : state.1.names.version = version := by
  have both := h.names.stamped.symm.trans h.stored.stamped
  exact KeyIndex.wordBytesInjective (Option.some.inj both)

theorem browsed (h : Strayed view version state named saved given) (b : Browses view anyCopy state after given) :
    Strayed view version after named saved given := by
  refine ⟨?_, ?_, b.has, h.fit, h.fitSaved⟩
  · rw [b.names, b.store]
    exact h.names
  · rw [b.store]
    exact h.stored

theorem kept (h : Strayed view version state named saved given)
    (names : KeyIndex.Holds after.1.names (view after.2) named.contents) (trees : after.1.trees = state.1.trees)
    (same : view after.2 = view state.2) : Strayed view version after named saved given := by
  refine ⟨names, same ▸ h.stored, ⟨same ▸ h.has.stored, trees ▸ h.has.cached, h.has.fit⟩, h.fit, h.fitSaved⟩

theorem erased {index : NameIndex} {s : σ} (h : Strayed view version (index, s) named saved given) (file : FileId) :
    Strayed view version ({ index with trees := (index.trees.erase file).2 }, s) named saved given :=
  ⟨h.names, h.stored, h.has.erased file, h.fit, h.fitSaved⟩

theorem fresh {capacity : Nat} {table : NameTable} {s : σ}
    (fresh : view s = Entries.empty.insert KeyIndex.versionKey (KeyIndex.stamp version)) :
    Strayed view version (⟨.empty version, .empty capacity, table⟩, s) .none .none .none := by
  have start := freshStored version
  rw [← fresh] at start
  exact ⟨start.names, start.names, (start.opened capacity table).has, start.fit, start.fit⟩

end Strayed

section
variable {store : Store σ} (flaky : store.Overlooks view)
include flaky

theorem endsOpenFlaky (version : UInt32) (capacity : Nat) (s : σ) : (openOn store version capacity).Ends s
    (fun index s' => Opened version capacity (view s) (view s') index) fun s' => view s' = view s := by
  unfold openOn KeyIndex.openOn
  refine endsBind (endsBind ((flaky.follows.get _ s).weaken ?_ fun _ => And.right))
  rintro stamp? s' ⟨same, rfl⟩
  by_cases found : (view s).get? KeyIndex.versionKey = some (KeyIndex.stamp version)
  · rw [if_neg (not_not.2 found)]
    exact endsPure (endsPure ⟨⟨_, rfl⟩, same.trans (if_pos found).symm⟩)
  · rw [if_pos found]
    refine endsBind ((flaky.writes.clear s').weaken ?_ fun _ no => no.1.elim)
    intro _ s'' gone
    refine endsBind ((flaky.writes.put _ _ s'').weaken ?_ fun _ no => no.1.elim)
    intro _ s''' put
    exact endsPure (endsPure ⟨⟨_, rfl⟩, put.trans (by rw [gone, if_neg found])⟩)

theorem endsRestoreFlaky (key : Bytes) (previous? : Option Bytes) (s : σ) : (restore store key previous?).Ends s
    (fun _ s' => view s' = (view s).assign key previous?) fun _ => False := by
  have same : restore store key previous? = restore (store.sighted view) key previous? := by
    cases previous? <;> rfl
  rw [same]
  exact endsRestore flaky.writes key previous? s

theorem endsOpenStrays {state : NameIndex × σ} (h : Strays view state) (version : UInt32) (capacity : Nat) :
    (openOn store version capacity).Ends state.2 (fun index s' => Strays view (index, s'))
      fun s' => Strays view (state.1, s') := by
  obtain ⟨version', named, saved, given, strayed⟩ := h
  refine (endsOpenFlaky flaky version capacity state.2).weaken ?_ ?_
  · rintro index s' ⟨⟨table, rfl⟩, told⟩
    split at told
    · next found =>
      have same : version' = version :=
        KeyIndex.wordBytesInjective (Option.some.inj (strayed.stored.stamped.symm.trans found))
      have stored := same ▸ told.symm ▸ strayed.stored
      have has : HasTrees anyCopy ⟨.empty version, .empty capacity, table⟩ (view s') given := by
        refine ⟨told.symm ▸ strayed.has.stored, fun f copy there => ?_, strayed.has.fit⟩
        simp [LruCache.findEmpty] at there
      exact ⟨version, saved, saved, given, stored, stored, has, strayed.fitSaved, strayed.fitSaved⟩
    · exact (Strayed.fresh told).strays
  · intro s' same
    have kept : Strayed view version' (state.1, s') named saved given :=
      strayed.kept (same.symm ▸ strayed.names) rfl same
    exact kept.strays

namespace Strayed
variable {index : NameIndex} {s : σ}

theorem endsPlace (h : Strayed view version (index, s) named saved given) (file : FileId) (tree? : Option Tree)
    (fits : ∀ t ∈ tree?, t.Fits) (apart : index.trees.find? file = none) :
    (restore store (treeKey file) (tree?.map (·.encode))).Ends s
      (fun _ s' => Strayed view version (index, s') named saved (given.put file tree?)) fun _ => False := by
  refine (endsRestoreFlaky flaky _ _ s).weaken ?_ fun _ => id
  intro _ s' written
  refine ⟨written ▸ namesElsewhere h.names file _, written ▸ namesElsewhere h.stored file _, ?_, h.fit, h.fitSaved⟩
  exact h.has.placed written fits apart

theorem endsIndexFile (h : Strayed view version (index, s) named saved given) (file : FileId) {t : Tree} (fits : t.Fits) :
    (indexFile store file t).Ends (index, s)
      (fun _ after => Strayed view version after (named.put file (some t)) saved (given.put file (some t)))
      fun after => Strayed view version after named saved given := by
  have own : ∀ t' ∈ some t, t'.Fits := fun _ same => Option.some.inj same ▸ fits
  have gone := index.trees.findErased file
  unfold indexFile
  refine endsBind (endsOnStore ((flaky.follows.get _ s).weaken ?_ fun s' ⟨_, same⟩ =>
    h.kept (same.symm ▸ h.names) rfl same))
  rintro previous? s' ⟨same, found⟩
  rw [h.has.stored] at found
  subst found
  have read : Strayed view version (index, s') named saved given := h.kept (same.symm ▸ h.names) rfl same
  refine endsBind (endsChange (endsBind (endsOnStore (((read.erased file).endsPlace flaky file (some t) own gone).weaken ?_
    fun _ => False.elim))))
  intro _ s'' placed
  refine endsBind (endsTry (endsOnNames ((placed.names.tells.endsUpdate flaky.follows file
    (Trees.entriesCoded fits)).weaken ?_ ?_)))
  · intro _ ⟨names, last⟩ r
    refine endsChange ⟨?_, r.store ▸ placed.stored, ⟨r.store ▸ placed.has.stored, ?_, placed.has.fit⟩,
      h.fit.put file own, h.fitSaved⟩
    · rw [Trees.contentsPut]
      exact r.holds placed.names
    · exact cachedPut h.has.cached (fun _ _ => trivial) (fun _ _ _ _ => id) foundReplaced
  · rintro ⟨names, failed⟩ ⟨-, r⟩ fault
    have kept : Strayed view version ({ index with names, trees := (index.trees.erase file).2 }, failed) named saved
        (given.put file (some t)) := placed.kept (r.holds placed.names) rfl r.store
    refine endsBind (endsTry (endsOnStore ((kept.endsPlace flaky file (given file) (h.has.fit file) gone).weaken ?_
      fun _ => False.elim)))
    intro _ last back
    rw [given.putBack] at back
    exact back

theorem endsRemoveFile (h : Strayed view version (index, s) named saved given) (file : FileId) :
    (removeFile store file).Ends (index, s)
      (fun _ after => Strayed view version after (named.put file none) saved (given.put file none))
      fun after => Strayed view version after named saved (given.put file none) ∧
        after.1.trees = (index.trees.erase file).2 := by
  have gone := index.trees.findErased file
  unfold removeFile
  refine endsBind (endsChange (endsBind (endsOnStore (((h.erased file).endsPlace flaky file none nofun gone).weaken ?_
    fun _ => False.elim))))
  intro _ s' removed
  refine endsOnNames ((KeyIndex.endsRemoveFile flaky.follows removed.names file).weaken ?_ ?_)
  · rintro had ⟨names, last⟩ ⟨r, -⟩
    have kept := removed.has
    rw [← r.store] at kept
    refine ⟨?_, r.store ▸ removed.stored, ⟨kept.stored, kept.cached, kept.fit⟩, h.fit.put file nofun, h.fitSaved⟩
    rw [Trees.contentsPut]
    exact r.holds removed.names
  · rintro ⟨names, last⟩ ⟨-, r⟩
    exact ⟨removed.kept (r.holds removed.names) rfl r.store, rfl⟩

theorem endsFind (h : Strayed view version (index, s) named saved given) {name : String} (short : Short name) :
    (find store name).Ends (index, s) (fun _ after => Strayed view version after named saved given)
      fun after => Strayed view version after named saved given := by
  refine (endsFindNames flaky.follows h.names short).weaken ?_ ?_
  · rintro _ after ⟨-, names, trees, same⟩
    exact h.kept names trees same
  · rintro after ⟨-, names, trees, same⟩
    exact h.kept names trees same

theorem endsVisit (h : Strayed view version (index, s) named saved given) (scope : Scope) (accepts : String → Bool)
    (visitor : α → String → Bool × α) (start : α) : (visitNames store scope accepts visitor start).Ends (index, s)
      (fun _ after => Strayed view version after named saved given)
      fun after => Strayed view version after named saved given := by
  refine endsOnNames ((h.names.tells.endsVisit flaky.follows scope accepts visitor start).weaken ?_ ?_)
  · rintro _ ⟨names, s'⟩ ⟨same, entries, -⟩
    dsimp only at same entries
    subst same
    exact h.kept (entries.symm ▸ h.names) rfl entries
  · rintro ⟨names, s'⟩ ⟨-, same, entries⟩
    dsimp only at same entries
    subst same
    exact h.kept (entries.symm ▸ h.names) rfl entries

theorem endsFlush (h : Strayed view version (index, s) named saved given) : (flush store).Ends (index, s)
    (fun _ after => Strayed view version after named named given) fun _ => False := by
  have same : KeyIndex.flush (K := String) (V := Reference) store = KeyIndex.flush (store.sighted view) := rfl
  unfold flush
  rw [same]
  refine endsOnNames ((KeyIndex.endsFlush flaky.writes h.names h.fit.contents).weaken ?_ fun _ no => no.1)
  rintro _ ⟨names, s'⟩ ⟨writes, stored⟩
  rw [h.sameVersion] at stored
  have has : HasTrees anyCopy { index with names } (view s') given :=
    ⟨storedBeside h.has.stored writes.beside, h.has.cached, h.has.fit⟩
  exact ⟨writes.holds h.names, stored, has, h.fit, h.fit⟩

theorem endsClear (h : Strayed view version (index, s) named saved given) : (clear store).Ends (index, s)
    (fun _ after => Strayed view version after .none .none .none) fun _ => False := by
  have same : KeyIndex.clear (K := String) (V := Reference) store = KeyIndex.clear (store.sighted view) := rfl
  unfold clear
  rw [same]
  refine endsBind (endsChange (endsOnNames ((KeyIndex.endsClear flaky.writes _ s).weaken ?_ fun _ no => no.1)))
  rintro _ ⟨names, s'⟩ ⟨same, written⟩
  dsimp only at same written
  subst same
  have start := freshStored index.names.version
  rw [← written] at start
  have has : HasTrees anyCopy { index with trees := index.trees.clear } (view s') .none := by
    refine ⟨start.stored, fun f copy found => ?_, start.fit⟩
    simp [LruCache.findClear] at found
  exact ⟨start.names, h.sameVersion ▸ start.names, ⟨has.stored, has.cached, has.fit⟩, start.fit, start.fit⟩

end Strayed

theorem Strays.endsServe {state : NameIndex × σ} (h : Strays view state) {request : Request} (fits : request.Fits)
    (capacity : Nat) : (serve store capacity request).Ends state (fun _ after => Strays view after) (Strays view) := by
  obtain ⟨version, named, saved, given, strayed⟩ := h
  obtain ⟨index, s⟩ := state
  cases request with
  | indexFile file t =>
    refine endsBind ((strayed.endsIndexFile flaky file fits).weaken ?_ fun _ same => same.strays)
    exact fun _ _ changed => endsPure changed.strays
  | removeFile file =>
    exact endsMap ((strayed.endsRemoveFile flaky file).weaken (fun _ _ changed => changed.strays)
      fun _ left => left.1.strays)
  | find name =>
    exact endsMap ((strayed.endsFind flaky fits).weaken (fun _ _ same => same.strays) fun _ same => same.strays)
  | tree file =>
    exact endsMap ((strayed.has.endsTree flaky.follows (anyDecoded given) file).weaken
      (fun _ _ told => (strayed.browsed told.2).strays) fun _ told => (strayed.browsed told.2).strays)
  | resolve reference =>
    exact endsMap ((strayed.has.endsResolve flaky.follows (anyDecoded given) reference).weaken
      (fun _ _ told => (strayed.browsed told.2).strays) fun _ told => (strayed.browsed told.2).strays)
  | flush =>
    exact endsBind ((strayed.endsFlush flaky).weaken (fun _ _ flushed => endsPure flushed.strays) fun _ => False.elim)
  | clear =>
    exact endsBind ((strayed.endsClear flaky).weaken (fun _ _ cleared => endsPure cleared.strays) fun _ => False.elim)
  | reopen version' =>
    refine endsBind (endsOnStore ((endsOpenStrays flaky strayed.strays version' capacity).weaken ?_ fun _ => id))
    exact fun _ _ opened => endsBind (endsChange (endsPure opened))

theorem Reached.strays {state : NameIndex × σ} (reached : Reached store view state) : Strays view state := by
  induction reached with
  | @opened version capacity s index s' other run =>
    obtain ⟨⟨table, rfl⟩, told⟩ := (endsOpenFlaky flaky version capacity s).answered run
    rw [if_neg other] at told
    exact (Strayed.fresh told).strays
  | served before fits capacity ih => exact (ih.endsServe flaky fits capacity).always
  | defaulted before reference text ih =>
    obtain ⟨version, named, saved, given, strayed⟩ := ih
    exact ((strayed.has.endsSetDefault flaky.follows (anyDecoded given) reference text (fun _ _ _ => id)
      fun _ _ => id).weaken (fun _ _ told => (strayed.browsed told).strays)
      fun _ told => (strayed.browsed told.2).strays).always
  | visited before scope accepts visitor start ih =>
    obtain ⟨version, named, saved, given, strayed⟩ := ih
    exact ((strayed.endsVisit flaky scope accepts visitor start).weaken (fun _ _ same => same.strays)
      fun _ same => same.strays).always

end

def AnswersBy (rel : α → α → Prop) (call : Call τ α) (one other : NameIndex × τ) : Prop :=
  ∃ a b, (call one).1 = .ok a ∧ (call other).1 = .ok b ∧ rel a b

section
variable {other : Store τ} {shown : τ → Entries} (works : other.Follows shown False)
include works

theorem HasTrees.answers {copies : Copies} {index : NameIndex} {t : τ} {trees : Trees}
    (h : HasTrees copies index (shown t) trees) (decoded : copies.Decoded trees) (file : FileId) :
    ∃ found, Given index trees file found ∧ (tree other file (index, t)).1 = .ok found ∧
      ∀ node, (resolve other ⟨file, node⟩ (index, t)).1 =
        .ok (found.bind fun tree => if tree.contains node then some ⟨tree, node⟩ else none) := by
  obtain ⟨found, after, run, given, -⟩ := (h.endsTree works decoded file).surely
  refine ⟨found, given, congrArg Prod.fst run, fun node => ?_⟩
  obtain ⟨answer, after', run', ⟨tree?, given', rfl⟩, -⟩ := (h.endsResolve works decoded ⟨file, node⟩).surely
  rw [run', givenUnique given given' rfl rfl]

end

/-- A removal that fails on a store whose look-ups may fail. Once the store works again, or another one
that does has its entries, every name finds what it found before, and every other file has its tree
and its references as before. Those of the file itself are as before, up to the ids that a reload
gives, if and only if the store had no tree of it. -/
theorem failedRemovalExact {store : Store σ} (flaky : store.Overlooks view) {state after : NameIndex × σ}
    {file : FileId} {fault : Fault} (reached : Reached store view state)
    (failed : removeFile store file state = (.error fault, after)) {τ : Type} (other : Store τ)
    (shown : τ → Entries) (works : other.Follows shown False) (t t' : τ) (before : shown t = view state.2)
    (now : shown t' = view after.2) :
    (∀ name, Short name → AnswersBy Eq (find other name) (state.1, t) (after.1, t')) ∧
    (∀ f, f ≠ file → AnswersBy Eq (tree other f) (state.1, t) (after.1, t') ∧
      ∀ node, AnswersBy Eq (resolve other ⟨f, node⟩) (state.1, t) (after.1, t')) ∧
    (AnswersBy (Option.Rel Copy) (tree other file) (state.1, t) (after.1, t') ∧
      (∀ node, AnswersBy (Option.Rel fun d d' => Copy d.tree d'.tree) (resolve other ⟨file, node⟩)
        (state.1, t) (after.1, t')) ↔ (view state.2).get? (treeKey file) = none) := by
  obtain ⟨version, named, saved, given, strayed⟩ := reached.strays flaky
  obtain ⟨left, erased⟩ := (strayed.endsRemoveFile flaky file).stopped failed
  have names := strayed.names
  have has := strayed.has
  have names' := left.names
  have has' := left.has
  rw [← before] at names has
  rw [← now] at names' has'
  refine ⟨fun name short => ?_, fun f others => ?_, ?_⟩
  · obtain ⟨found, _, run, finds, -⟩ := (endsFindNames works names short).surely
    obtain ⟨found', _, run', finds', -⟩ := (endsFindNames works names' short).surely
    exact ⟨found, found', congrArg Prod.fst run, congrArg Prod.fst run', finds.unique finds'⟩
  · obtain ⟨found, told, tree, resolves⟩ := has.answers works (anyDecoded given) f
    obtain ⟨found', told', tree', resolves'⟩ := has'.answers works (anyDecoded _) f
    have cache : after.1.trees.find? f = state.1.trees.find? f := by
      rw [erased, LruCache.findErase, if_neg others]
    have same : found' = found := givenUnique told told' cache (if_neg others)
    subst same
    exact ⟨⟨_, _, tree, tree', rfl⟩, fun node => ⟨_, _, resolves node, resolves' node, rfl⟩⟩
  · obtain ⟨found, told, tree, resolves⟩ := has.answers works (anyDecoded given) file
    obtain ⟨found', told', tree', resolves'⟩ := has'.answers works (anyDecoded _) file
    have gone : found' = none := (has'.foundNone told').2 (if_pos rfl)
    subst gone
    have absent : found = none ↔ (view state.2).get? (treeKey file) = none := by
      rw [has.foundNone told, strayed.has.stored, Option.map_eq_none_iff]
    rw [← absent]
    constructor
    · rintro ⟨⟨a, b, answer, answer', rel⟩, -⟩
      cases answer.symm.trans tree
      cases answer'.symm.trans tree'
      cases rel
      rfl
    · intro none
      subst none
      exact ⟨⟨_, _, tree, tree', .none⟩, fun node => ⟨_, _, resolves node, resolves' node, .none⟩⟩

theorem Reached.servedAll {store : Store σ} {state : NameIndex × σ} (reached : Reached store view state)
    {requests : List Request} (fits : ∀ request ∈ requests, request.Fits) (capacity : Nat) :
    Reached store view (requests.foldl (fun state request => (serve store capacity request state).2) state) := by
  induction requests generalizing state with
  | nil => exact reached
  | cons request rest ih =>
    exact ih (reached.served (fits request (.head _)) capacity) fun request mem => fits request (.tail _ mem)

def forgottenStart : NameIndex × (List Bool × Entries) :=
  (⟨.empty 1, .empty 8, .empty⟩, [false, false, false, false, true],
    Entries.empty.insert KeyIndex.versionKey (KeyIndex.stamp 1))

def forgottenState : NameIndex × (List Bool × Entries) :=
  [Request.indexFile ⟨1⟩ (classTree "A"), .flush, .reopen 1].foldl
    (fun state request => (serve flakyStore 8 request state).2) forgottenStart

theorem forgottenReached : Reached flakyStore (·.2) forgottenState := by
  have opened : openOn flakyStore 1 8 ([false, false, false, false, false, true], Entries.empty) =
    (.ok forgottenStart.1, forgottenStart.2) := rfl
  have fits : (classTree "A").Fits := ⟨Tree.storableAll (by decide +kernel), by decide⟩
  have start : Reached flakyStore (·.2) forgottenStart := .opened (by nofun) opened
  exact start.servedAll (by simp [Request.Fits, fits]) 8

theorem forgottenFails : ∃ fault after, removeFile flakyStore ⟨1⟩ forgottenState = (.error fault, after) := by
  have fails : (removeFile flakyStore ⟨1⟩ forgottenState).1.toOption.isNone := by decide +kernel
  rcases run : removeFile flakyStore ⟨1⟩ forgottenState with ⟨fault | had, after⟩
  · exact ⟨fault, after, rfl⟩
  · rw [run] at fails
    cases fails

theorem forgottenExact : flakyStore.Overlooks (·.2) ∧ Reached flakyStore (·.2) forgottenState ∧
    memoryStore.Follows id False ∧
    ∃ fault after, removeFile flakyStore ⟨1⟩ forgottenState = (.error fault, after) ∧
      (∀ name, Short name →
        AnswersBy Eq (find memoryStore name) (forgottenState.1, forgottenState.2.2) (after.1, after.2.2)) ∧
      (∀ f, f ≠ ⟨1⟩ →
        AnswersBy Eq (tree memoryStore f) (forgottenState.1, forgottenState.2.2) (after.1, after.2.2) ∧
        ∀ node, AnswersBy Eq (resolve memoryStore ⟨f, node⟩) (forgottenState.1, forgottenState.2.2) (after.1, after.2.2)) ∧
      (AnswersBy (Option.Rel Copy) (tree memoryStore ⟨1⟩) (forgottenState.1, forgottenState.2.2) (after.1, after.2.2) ∧
        (∀ node, AnswersBy (Option.Rel fun d d' => Copy d.tree d'.tree) (resolve memoryStore ⟨⟨1⟩, node⟩)
          (forgottenState.1, forgottenState.2.2) (after.1, after.2.2)) ↔
        forgottenState.2.2.get? (treeKey ⟨1⟩) = none) := by
  obtain ⟨fault, after, failed⟩ := forgottenFails
  exact ⟨flakyOverlooks, forgottenReached, memoryFollows, fault, after, failed,
    failedRemovalExact flakyOverlooks forgottenReached failed memoryStore id memoryFollows _ _ rfl rfl⟩

theorem removalLosesTree : Reached flakyStore (·.2) forgottenState ∧
    ∃ fault after, removeFile flakyStore ⟨1⟩ forgottenState = (.error fault, after) ∧
      (find memoryStore "A" (after.1, after.2.2)).1.toOption = some [⟨⟨1⟩, ⟨1⟩⟩] ∧
      ((resolve memoryStore ⟨⟨1⟩, ⟨1⟩⟩ (forgottenState.1, forgottenState.2.2)).1.toOption.join.bind (·.name?)) = some "A" ∧
      (resolve memoryStore ⟨⟨1⟩, ⟨1⟩⟩ (after.1, after.2.2)).1.toOption.join.isNone ∧
      ¬ AnswersBy (Option.Rel Copy) (tree memoryStore ⟨1⟩) (forgottenState.1, forgottenState.2.2)
        (after.1, after.2.2) := by
  obtain ⟨fault, after, failed⟩ := forgottenFails
  have last : after = (removeFile flakyStore ⟨1⟩ forgottenState).2 := by rw [failed]
  refine ⟨forgottenReached, fault, after, failed, ?_, by decide +kernel, ?_, ?_⟩
  · rw [last]
    decide +kernel
  · rw [last]
    decide +kernel
  · rintro ⟨before?, after?, before, now, rel⟩
    have there : (tree memoryStore ⟨1⟩ (forgottenState.1, forgottenState.2.2)).1.toOption.join.isSome := by decide +kernel
    have gone : (tree memoryStore ⟨1⟩ (after.1, after.2.2)).1.toOption.join.isNone := by
      rw [last]
      decide +kernel
    rw [before] at there
    rw [now] at gone
    cases rel with
    | none => cases there
    | some => cases gone

end SymbolCatalog.NameIndex
