import SymbolCatalog.Proofs.KeyIndex.Within
import SymbolCatalog.Proofs.NameIndex.Calls
import SymbolCatalog.Proofs.Record.Names
import SymbolCatalog.Proofs.Tree.Agreement

/-! A tree in the cache is the one that its bytes in the store decode to, as long as trees come with
their ids in depth-first order. -/
namespace SymbolCatalog.NameIndex
open ExceptT
variable {σ α τ : Type}

def places (entries : Entries) (file : FileId) : Option Bytes := entries.get? (treeKey file)

def Backed (trees : LruCache FileId Tree) (stored : FileId → Option Bytes) : Prop :=
  ∀ file t, trees.find? file = some t → (stored file).map Tree.read = some (.ok t)

def lookUp (stored : FileId → Option Bytes) (file : FileId) : Except Fault (Option Tree) :=
  match (stored file).map Tree.read with
  | none => .ok none
  | some (.ok t) => .ok (some t)
  | some (.error fault) => .error (.record fault)

/- A tree that reads back as it is, its ids included. -/
structure Plain (t : Tree) : Prop where
  storable : t.Storable
  order : t.preorder = t.ids
  arrays : t.ArrayVarargs

theorem Plain.reads {t : Tree} (plain : Plain t) : Tree.read t.encode = .ok t := by
  have settled : ∀ id payload, t.payload? id = some payload → payload.settled = payload :=
    fun id payload there => Payload.settledArrays (plain.arrays id payload there)
  obtain ⟨copy, table, run, nodes⟩ := Tree.decodeEncoded plain.storable .empty
  rw [(Tree.sameDecoded nodes settled).2 plain.order] at run
  exact congrArg (·.1) run

namespace Backed
variable {trees : LruCache FileId Tree} {stored stored' : FileId → Option Bytes}

theorem empty (capacity : Nat) : Backed (.empty capacity) stored :=
  fun file t found => by simp [LruCache.findEmpty] at found

theorem clear : Backed trees.clear stored := fun file t found => by simp [LruCache.findClear] at found

theorem get (h : Backed trees stored) (file : FileId) : Backed (trees.get file).2 stored := by
  intro f t found
  rw [LruCache.findGet] at found
  exact h f t found

theorem erase (h : Backed trees stored) {file : FileId} (others : ∀ f, f ≠ file → stored' f = stored f) :
    Backed (trees.erase file).2 stored' := by
  intro f t found
  rw [LruCache.findErase] at found
  split at found
  · cases found
  · next other =>
    rw [others f other]
    exact h f t found

theorem insert (h : Backed trees stored) {file : FileId} {t : Tree}
    (reads : (stored file).map Tree.read = some (.ok t)) : Backed (trees.insert file t) stored := by
  intro f t' found
  have found := LruCache.findInsert found
  split at found
  · next same =>
    cases found
    exact same ▸ reads
  · exact h f t' found

theorem shed (h : Backed trees stored) {fewer : LruCache FileId Tree} (sheds : trees.Sheds fewer) : Backed fewer stored :=
  fun file t found => h file t (sheds file t found)

end Backed

variable {view : σ → Entries}

abbrev Sees (view : σ → Entries) (kept : NameIndex × σ → τ) (call : Call σ α) : Prop :=
  call.Within (fun state => (state.1.names, view state.2)) kept

theorem seesStore {call : StoreCall σ α} {part : Entries → τ} (h : call.Within view fun s => part (view s)) :
    Sees view (fun state => (state.1.trees, part (view state.2))) (onStore call) := by
  intro ⟨index, s⟩ ⟨index', s'⟩ alike
  obtain ⟨names, entries⟩ := Prod.mk.inj alike
  obtain ⟨answer, after, stays⟩ := h s s' entries
  exact ⟨congrArg (Except.mapError Fault.storage) answer, Prod.ext names after, congrArg (Prod.mk index.trees) stays⟩

theorem seesNames {call : KeyIndex.Call String Reference σ α} {part : Entries → τ}
    (h : KeyIndex.Minds view part call) :
    Sees view (fun state => (state.1.trees, part (view state.2))) (onNames call) := by
  intro ⟨index, s⟩ ⟨index', s'⟩ alike
  obtain ⟨answer, after, stays⟩ := h (index.names, s) (index'.names, s') alike
  exact ⟨congrArg (Except.mapError Fault.storage) answer, after, congrArg (Prod.mk index.trees) stays⟩

theorem seesChange {f : NameIndex → NameIndex} {part : Entries → τ} (h : ∀ index, (f index).names = index.names) :
    Sees view (fun state => part (view state.2)) (change f : Call σ Unit) := by
  intro ⟨index, s⟩ ⟨index', s'⟩ alike
  obtain ⟨names, entries⟩ := Prod.mk.inj alike
  exact ⟨rfl, Prod.ext ((h index).trans (names.trans (h index').symm)) entries, rfl⟩

theorem runNow (state : NameIndex × σ) : (now : Call σ NameIndex) state = (.ok state.1, state) := rfl

theorem runStore (call : StoreCall σ α) (index : NameIndex) (s : σ) :
    onStore call (index, s) = ((call s).1.mapError .storage, index, (call s).2) := rfl

theorem runChange (f : NameIndex → NameIndex) (state : NameIndex × σ) :
    (change f : Call σ Unit) state = (.ok (), f state.1, state.2) := rfl

def Sound (view : σ → Entries) (state : NameIndex × σ) : Prop := Backed state.1.trees (places (view state.2))

theorem Sound.stays {kept : Entries → τ} {call : Call σ α}
    (sees : Sees view (fun state => (state.1.trees, kept (view state.2))) call)
    (whole : ∀ entries entries', kept entries' = kept entries → places entries' = places entries)
    {state : NameIndex × σ} (sound : Sound view state) :
    call.Ends state (fun _ after => Sound view after) (Sound view) := by
  have ends : ∀ after : NameIndex × σ, (after.1.trees, kept (view after.2)) = (state.1.trees, kept (view state.2)) →
      Sound view after := by
    intro after same
    obtain ⟨trees, part⟩ := Prod.mk.inj same
    unfold Sound
    rw [trees, whole _ _ part]
    exact sound
  exact (sees.ends state).weaken (fun _ => ends) ends

theorem placesOther (entries : Entries) (file : FileId) (value? : Option Bytes) {f : FileId} (other : f ≠ file) :
    places (entries.assign (treeKey file) value?) f = places entries f := by
  unfold places
  rw [Entries.getAssign, if_neg fun same => other (treeKeyInjective same).symm]

theorem placesApart {entries entries' : Entries} (same : KeyIndex.apart entries' = KeyIndex.apart entries) :
    places entries' = places entries := by
  funext file
  exact congrFun same ⟨treeKey file, by simp [treeKey, treeFamily], by simp [treeKey, treeFamily]⟩

variable {store : Store σ} (follows : store.Follows view False)
include follows

section
open KeyIndex

theorem seesGet (place : Bytes) :
    Sees view (fun state => beyond (view state.2)) (onStore (store.get place)) :=
  (seesStore ((withinGet follows place).part beyond)).part (·.2)

theorem seesPut (file : FileId) (value : Bytes) :
    Sees view (fun state => beyond (view state.2)) (onStore (store.put (treeKey file) value)) :=
  (seesStore (withinPut follows beyond _ value fun entries => beyondAssign entries file (some value))).part (·.2)

theorem seesRemove (file : FileId) :
    Sees view (fun state => beyond (view state.2)) (onStore (store.remove (treeKey file))) :=
  (seesStore (withinRemove follows beyond _ fun entries => beyondAssign entries file none)).part (·.2)

theorem seesIndexFile (file : FileId) (t : Tree) :
    Sees view (fun state => beyond (view state.2)) (indexFile store file t) := by
  refine withinBind (seesGet follows _) fun previous? => withinBind (seesChange fun _ => rfl) fun _ =>
    withinBind (seesPut follows _ _) fun _ => withinBind (withinTry ?_ fun fault => withinBind (withinTry ?_ ?_) ?_)
      fun _ => seesChange fun _ => rfl
  · exact (seesNames (mindsUpdate follows _ _)).part fun kept => beyond kept.2
  · cases previous? with
    | none => exact seesRemove follows file
    | some old => exact seesPut follows file old
  · exact fun _ => withinPure
  · exact fun _ => withinThrow

theorem seesRemoveFile (file : FileId) :
    Sees view (fun state => beyond (view state.2)) (removeFile store file) :=
  withinBind (seesChange fun _ => rfl) fun _ => withinBind (seesRemove follows _) fun _ =>
    (seesNames (mindsRemoveFile follows file)).part fun kept => beyond kept.2

theorem seesFind (name : String) :
    Sees view (fun state => (state.1.trees, view state.2)) (find store name) :=
  withinBind (seesNames (mindsGet follows name)) fun _ => withinPure

theorem seesFlush : Sees view (fun state => (state.1.trees, apart (view state.2))) (flush store) :=
  seesNames (mindsFlush follows)

theorem seesClear : Sees view (fun state => Function.const Entries () (view state.2)) (clear store) :=
  withinBind (seesChange fun _ => rfl) fun _ => (seesNames (mindsClear follows)).part (·.2)

end

theorem treeLooksUp {index : NameIndex} {s : σ} (backed : Backed index.trees (places (view s))) (file : FileId) :
    ∃ index' s', tree store file (index, s) = (lookUp (places (view s)) file, index', s') ∧
      index'.names = index.names ∧ view s' = view s ∧ Backed index'.trees (places (view s')) := by
  have used := backed.get file
  unfold tree
  rw [runBind, runNow]
  dsimp only
  rw [runBind, runChange, LruCache.getFound]
  dsimp only
  cases cached : index.trees.find? file with
  | some t =>
    have answer : lookUp (places (view s)) file = .ok (some t) := by
      unfold lookUp
      rw [backed file t cached]
    rw [answer]
    exact ⟨_, s, rfl, rfl, rfl, used⟩
  | none =>
    obtain ⟨bytes?, s', run, same, found⟩ :=
      ((follows.get (treeKey file) s).weaken (fun _ _ h => h) fun _ no => no.1).succeeds
    rw [← same] at used
    dsimp only
    rw [runBind, runStore, run]
    subst found
    dsimp only [Except.mapError]
    unfold lookUp places
    cases there : (view s).get? (treeKey file) with
    | none => exact ⟨_, s', rfl, rfl, same, used⟩
    | some bytes =>
      dsimp only [Option.map_some]
      rw [runBind, runNow]
      dsimp only
      rw [runBind, runChange, Tree.decodeRead]
      dsimp only
      cases read : Tree.read bytes with
      | error fault => exact ⟨_, s', rfl, rfl, same, used⟩
      | ok t =>
        dsimp only
        rw [runBind, runChange]
        refine ⟨_, s', rfl, rfl, same, used.insert ?_⟩
        unfold places
        rw [same, there, Option.map_some, read]

theorem endsRestore (key : Bytes) (old? : Option Bytes) (s : σ) :
    (restore store key old?).Ends s (fun _ s' => view s' = (view s).assign key old?) fun _ => False :=
  (endsRestoring follows key old? s).weaken (fun _ _ => id) fun _ no => no.1

theorem Sound.indexFile {state : NameIndex × σ} (sound : Sound view state) (file : FileId) {t : Tree}
    (plain : Plain t) : (indexFile store file t).Ends state (fun _ after => Sound view after) (Sound view) := by
  obtain ⟨index, s⟩ := state
  unfold NameIndex.indexFile
  refine endsBind (endsOnStore ((follows.get _ s).weaken ?_ fun _ no => no.1.elim))
  intro previous? s' ⟨same, _⟩
  refine endsBind (endsChange (endsBind (endsOnStore ((follows.put _ _ s').weaken ?_ fun _ no => no.1.elim))))
  intro _ s'' put
  have written : view s'' = (view s).assign (treeKey file) (some t.encode) := put.trans (by rw [same]; rfl)
  have names := seesNames (KeyIndex.mindsUpdate follows file (t.declarations.map fun d => (d.1, ⟨file, d.2⟩)))
  refine endsBind (endsTry ((names.ends _).weaken ?_ ?_))
  · intro _ ⟨index', s'''⟩ stays
    obtain ⟨trees, entries⟩ := Prod.mk.inj stays
    have entries : view s''' = (view s).assign (treeKey file) (some t.encode) := entries.trans written
    refine endsChange (Backed.insert ?_ ?_)
    · rw [trees, entries]
      exact sound.erase fun f other => placesOther _ file _ other
    · dsimp only
      rw [entries, places, Entries.getAssign, if_pos rfl, Option.map_some, plain.reads]
  · intro ⟨index', s'''⟩ stays fault
    obtain ⟨trees, entries⟩ := Prod.mk.inj stays
    have entries : view s''' = (view s).assign (treeKey file) (some t.encode) := entries.trans written
    refine endsBind (endsTry (endsOnStore ((endsRestore follows _ _ s''').weaken ?_ fun _ => False.elim)))
    intro _ last restored
    change Backed index'.trees (places (view last))
    -- The tree is out of the cache, so any bytes may stand in its place.
    rw [trees, restored, entries]
    refine sound.erase fun f other => ?_
    rw [placesOther _ file _ other, placesOther _ file _ other]

theorem Sound.removeFile {state : NameIndex × σ} (sound : Sound view state) (file : FileId) :
    (removeFile store file).Ends state (fun _ after => Sound view after) (Sound view) := by
  obtain ⟨index, s⟩ := state
  unfold NameIndex.removeFile
  refine endsBind (endsChange (endsBind (endsOnStore ((follows.remove _ s).weaken ?_ fun _ no => no.1.elim))))
  intro _ s' removed
  refine Sound.stays (seesNames (KeyIndex.mindsRemoveFile follows file)) (fun _ _ same => congrArg places same) ?_
  change Backed _ (places (view s'))
  rw [removed]
  exact sound.erase fun f other => placesOther _ file none other

theorem Sound.clear (index : NameIndex) (s : σ) :
    (clear store).Ends (index, s) (fun _ after => Sound view after) (Sound view) := by
  unfold NameIndex.clear
  refine endsBind (endsChange ?_)
  have ends : ∀ after : NameIndex × σ, (after.1.trees, Function.const _ () (view after.2)) =
      (index.trees.clear, Function.const _ () (view s)) → Sound view after := by
    intro after same
    unfold Sound
    rw [(Prod.mk.inj same).1]
    exact Backed.clear
  exact ((seesNames (KeyIndex.mindsClear follows)).ends _).weaken (fun _ => ends) ends

end SymbolCatalog.NameIndex
