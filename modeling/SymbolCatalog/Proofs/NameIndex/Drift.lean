import SymbolCatalog.Proofs.KeyIndex.Interrupted
import SymbolCatalog.Proofs.NameIndex.Removal
import SymbolCatalog.Proofs.Tree.Settled

/-! What an index of names and its store come to when calls of the store may fail at any time. The
names in memory and those in the store tell two accounts then; a tree in the cache is still one of
which the store has the bytes. -/
namespace SymbolCatalog.NameIndex
open ExceptT
open KeyIndex (Tells Keeps)
variable {σ α : Type}

structure Drawn (a : Account String Reference) : Prop where
  ids : ∀ name file reference, a.occurs name file reference → reference.node.index < 2 ^ 32 - 1
  names : ∀ file, ∃ names : List String, names.length < 2 ^ 64 ∧ ∀ name, a.lists file name → name ∈ names

namespace Drawn
variable {a b : Account String Reference}

theorem none : Drawn .none :=
  ⟨fun _ _ _ => False.elim, fun _ => ⟨[], by decide, fun _ => False.elim⟩⟩

theorem fits (h : Drawn a) : a.Fits where
  values name references distinct occur := by
    refine Trees.referencesFew distinct fun reference mem => ?_
    obtain ⟨file, occurs⟩ := occur reference mem
    exact h.ids name file reference occurs
  keys file names distinct listed := by
    obtain ⟨all, few, known⟩ := h.names file
    have length := distinct.length_le_of_subset fun name mem => known name (listed name mem)
    omega

theorem put (h : Drawn a) (file : FileId) {entries : List (String × Reference)} (few : entries.length < 2 ^ 64)
    (ids : ∀ p ∈ entries, p.2.node.index < 2 ^ 32 - 1) : Drawn (a.put file entries) where
  ids name f reference occurs := by
    rcases occurs with ⟨-, mem⟩ | ⟨old, -⟩
    · exact ids _ mem
    · exact h.ids name f reference old
  names f := by
    by_cases same : f = file
    · refine ⟨entries.map (·.1), by rwa [List.length_map], fun name listed => ?_⟩
      rcases listed with ⟨-, reference, mem⟩ | ⟨other, -⟩
      · exact List.mem_map.2 ⟨_, mem, rfl⟩
      · exact absurd same other
    · obtain ⟨all, few, known⟩ := h.names f
      exact ⟨all, few, fun name listed => known name ((Account.putOther same).1 name |>.1 listed)⟩

theorem putTree (h : Drawn a) (file : FileId) {t : Tree} (fits : t.Fits) :
    Drawn (a.put file (Trees.entriesOf file t)) := by
  have few := fits.few
  refine h.put file ?_ fun p mem => ?_
  · have declarations := t.declarationsFew
    rw [Trees.entriesOf, List.length_map]
    omega
  · have inTree := (Trees.memEntriesOf.1 mem).2.inTree
    omega

theorem overwritten (h : Drawn b) (by_ : Drawn a) (keys : List String) (files : List FileId) :
    Drawn (b.overwritten a keys files) where
  ids name file reference occurs :=
    occurs.elim (fun new => by_.ids name file reference new.2) fun old => h.ids name file reference old.2
  names file := by
    by_cases written : file ∈ files
    · obtain ⟨all, few, known⟩ := by_.names file
      refine ⟨all, few, fun name listed => ?_⟩
      exact listed.elim (fun new => known name new.2) fun old => absurd written old.1
    · obtain ⟨all, few, known⟩ := h.names file
      refine ⟨all, few, fun name listed => ?_⟩
      exact listed.elim (fun new => absurd new.1 written) fun old => known name old.2

end Drawn

structure Since where
  given? : Option Tree
  texts : List String

def Since.nothing : Since := ⟨none, []⟩

def Since.ArrayVarargs (since : Since) : Prop := ∀ t ∈ since.given?, t.ArrayVarargs

def Since.defaulted (since : Since) (text : String) : Since := { since with texts := text :: since.texts }

/- A copy in the cache may have other ids and, since it was put there, other default values. Its variadic
types are arrays if it was indexed with such, or read. -/
def settling (since : FileId → Since) : Copies := fun file t copy =>
  Tree.Agrees (since file).texts t.settled copy.settled ∧ ((since file).ArrayVarargs → copy.ArrayVarargs)

theorem settlingDecoded (since : FileId → Since) (trees : Trees) : (settling since).Decoded trees := by
  intro file t copy _ nodes
  have settled := Tree.settledRead nodes
  unfold settling
  rw [settled]
  exact ⟨Tree.agreesRead _ nodes, fun _ => settled ▸ copy.settledVarargs⟩

def sinceServed (since : FileId → Since) : Request → Except Fault Reply → FileId → Since
  | .indexFile file t, .ok _ => Function.update since file ⟨some t, []⟩
  | _, _ => since

theorem sinceFailed (since : FileId → Since) (request : Request) (fault : Fault) :
    sinceServed since request (.error fault) = since := by
  cases request <;> rfl

/-- The indexes that can come about on a store, whether the calls before succeeded or not, and what
happened to the files since each was opened. -/
inductive Arises (store : Store σ) (start : σ) : Option NameIndex → σ → (FileId → Since) → Prop
  | start : Arises store start none start fun _ => .nothing
  | opened {index? : Option NameIndex} {s s' : σ} {since : FileId → Since}
      {answer : Except StorageError NameIndex} (before : Arises store start index? s since) (version : UInt32) (capacity : Nat)
      (ran : openOn store version capacity s = (answer, s')) : Arises store start answer.toOption s' fun _ => .nothing
  | served {index : NameIndex} {s : σ} {since : FileId → Since} {request : Request}
      {answer : Except Fault Reply} {after : NameIndex × σ} (before : Arises store start (some index) s since)
      (fits : request.Fits) (same : ∀ version, request ≠ .reopen version)
      (ran : serve store 0 request (index, s) = (answer, after)) :
      Arises store start (some after.1) after.2 (sinceServed since request answer)
  | defaulted {index : NameIndex} {s : σ} {since : FileId → Since}
      (before : Arises store start (some index) s since) (reference : Reference) (text : String)
      {answer : Except Fault (Option Resolved)} {after : NameIndex × σ}
      (ran : setDefault store reference text (index, s) = (answer, after)) :
      Arises store start (some after.1) after.2
        (Function.update since reference.file ((since reference.file).defaulted text))
  | visited {index : NameIndex} {s : σ} {since : FileId → Since}
      (before : Arises store start (some index) s since) {α : Type} (scope : Scope) (accepts : String → Bool)
      (visitor : α → String → Bool × α) (start' : α) {answer : Except Fault (KeyIndex.Visited α)}
      {after : NameIndex × σ} (ran : visitNames store scope accepts visitor start' (index, s) = (answer, after)) :
      Arises store start (some after.1) after.2 since

structure Rests (entries : Entries) (b : Account String Reference) (given : Trees) : Prop where
  keeps : Keeps entries b
  drawn : Drawn b
  stored : ∀ file, entries.get? (treeKey file) = (given file).map (·.encode)
  fit : given.Fit

structure Adrift (view : σ → Entries) (since : FileId → Since) (state : NameIndex × σ)
    (a b : Account String Reference) (given : Trees) : Prop where
  tells : Tells state.1.names (view state.2) a
  drawn : Drawn a
  keeps : Keeps (view state.2) b
  drawnKept : Drawn b
  has : HasTrees (settling since) state.1 (view state.2) given

def Drifts (view : σ → Entries) (since : FileId → Since) (state : NameIndex × σ) : Prop :=
  ∃ a b given, Adrift view since state a b given

namespace Rests

theorem nothing : Rests .empty .none .none :=
  ⟨KeyIndex.keepsEmpty, .none, fun _ => Entries.getEmpty _, Trees.fitNone⟩

theorem fresh (version : UInt32) :
    Rests (Entries.empty.insert KeyIndex.versionKey (KeyIndex.stamp version)) .none .none :=
  ⟨KeyIndex.keepsFresh version, .none, (freshStored version).stored, Trees.fitNone⟩

end Rests

variable {view : σ → Entries} {since since' : FileId → Since} {a b : Account String Reference} {given : Trees}

theorem Rests.blank {s : σ} (h : Rests (view s) b given) {index : NameIndex} {version : UInt32}
    (names : index.names = .empty version) (cache : ∀ file, index.trees.find? file = none) :
    Adrift view since (index, s) b b given := by
  refine ⟨?_, h.drawn, h.keeps, h.drawn, h.stored, fun file copy found => ?_, h.fit⟩
  · rw [names]
    exact KeyIndex.keepsIff.2 h.keeps
  · rw [cache file] at found
    cases found

theorem Adrift.rests {state : NameIndex × σ} (h : Adrift view since state a b given) : Rests (view state.2) b given :=
  ⟨h.keeps, h.drawnKept, h.has.stored, h.has.fit⟩

theorem Adrift.elsewhere {τ : Type} {shown : τ → Entries} {state : NameIndex × σ} {t : τ}
    (h : Adrift view since state a b given) (same : shown t = view state.2) :
    Adrift shown since (state.1, t) a b given :=
  ⟨same ▸ h.tells, h.drawn, same ▸ h.keeps, h.drawnKept, same ▸ h.has⟩

def FindsTold (a : Account String Reference) (name : String) (found : List Reference) : Prop :=
  ∃ c, a.Shows c name ∧ found = (c.pairs.map (·.2)).mergeSort Reference.le

/- If the names cannot be changed once the tree is stored, the write that puts the previous bytes back
succeeds. -/
def PutsBack (store : Store σ) (file : FileId) (t : Tree) (state : NameIndex × σ) : Prop :=
  ∀ previous? s s' e failed, store.get (treeKey file) state.2 = (.ok previous?, s) →
    store.put (treeKey file) t.encode s = (.ok (), s') →
    KeyIndex.update store file (Trees.entriesOf file t) (state.1.names, s') = (.error e, failed) →
    ∃ last, restore store (treeKey file) previous? failed.2 = (.ok (), last)

namespace Adrift
variable {store : Store σ} {fails : Prop} {index : NameIndex} {s : σ} {after : NameIndex × σ}
  {a' b' : Account String Reference}

theorem named {state : NameIndex × σ} (h : Adrift view since state a b given)
    (tells : Tells after.1.names (view after.2) a') (drawn : Drawn a') (trees : after.1.trees = state.1.trees)
    (same : view after.2 = view state.2) : Adrift view since after a' b given := by
  refine ⟨tells, drawn, same ▸ h.keeps, h.drawnKept, same ▸ h.has.stored, trees ▸ h.has.cached, h.has.fit⟩

theorem written {state : NameIndex × σ} (h : Adrift view since state a b given)
    (w : KeyIndex.Writes view (state.1.names, state.2) (after.1.names, after.2) a)
    (trees : after.1.trees = state.1.trees) (keeps : Keeps (view after.2) b') (drawn : Drawn b') :
    Adrift view since after a b' given :=
  ⟨w.tells, h.drawn, keeps, drawn, storedBeside h.has.stored w.beside, trees ▸ h.has.cached, h.has.fit⟩

theorem browsed {state : NameIndex × σ} (h : Adrift view since state a b given)
    (browses : Browses view (settling since') state after given) : Adrift view since' after a b given := by
  refine ⟨?_, h.drawn, ?_, h.drawnKept, browses.has⟩
  · rw [browses.names, browses.store]
    exact h.tells
  · rw [browses.store]
    exact h.keeps

theorem erased (h : Adrift view since (index, s) a b given) (file : FileId) :
    Adrift view since ({ index with trees := (index.trees.erase file).2 }, s) a b given :=
  ⟨h.tells, h.drawn, h.keeps, h.drawnKept, h.has.erased file⟩

variable (follows : store.Follows view fails) (h : Adrift view since (index, s) a b given)
include follows h

theorem endsPlace (file : FileId) (tree? : Option Tree) (fits : ∀ t ∈ tree?, t.Fits)
    (apart : index.trees.find? file = none) : (restore store (treeKey file) (tree?.map (·.encode))).Ends s
      (fun _ s' => Adrift view since (index, s') a b (given.put file tree?))
      fun s' => fails ∧ Adrift view since (index, s') a b given := by
  refine (endsRestoring follows _ _ s).weaken ?_ fun s' ⟨may, same⟩ => ⟨may, h.elsewhere same⟩
  intro _ s' written
  refine ⟨written ▸ tellsElsewhere h.tells file _, h.drawn, written ▸ tellsElsewhere h.keeps file _, h.drawnKept, ?_⟩
  exact h.has.placed written fits apart

theorem endsFind {name : String} (short : Short name) : (find store name).Ends (index, s)
    (fun found after => FindsTold a name found ∧ Adrift view since after a b given)
    fun after => fails ∧ Adrift view since after a b given := by
  unfold find get
  refine endsBind (endsOnNames ((h.tells.endsGet follows (readsBackText short)).weaken ?_ ?_))
  · intro c ⟨names, s'⟩ ⟨shows, _, reads⟩
    exact endsPure ⟨⟨c, shows, rfl⟩, h.named reads.tells h.drawn rfl reads.store⟩
  · intro ⟨names, s'⟩ ⟨may, reads⟩
    exact ⟨may, h.named reads.tells h.drawn rfl reads.store⟩

theorem endsVisit (scope : Scope) (accepts : String → Bool) (visitor : α → String → Bool × α) (start : α) :
    (visitNames store scope accepts visitor start).Ends (index, s)
      (fun _ after => Drifts view since after) (Drifts view since) := by
  refine endsOnNames ((h.tells.endsVisit follows scope accepts visitor start).weaken ?_ ?_)
  · rintro _ ⟨names, s'⟩ ⟨same, entries, -⟩
    dsimp only at same entries
    subst same
    exact ⟨_, _, _, h.named (entries.symm ▸ h.tells) h.drawn rfl entries⟩
  · rintro ⟨names, s'⟩ ⟨-, same, entries⟩
    dsimp only at same entries
    subst same
    exact ⟨_, _, _, h.named (entries.symm ▸ h.tells) h.drawn rfl entries⟩

theorem endsSetDefault (reference : Reference) (text : String) : (setDefault store reference text).Ends (index, s)
    (fun _ after => Drifts view (Function.update since reference.file ((since reference.file).defaulted text)) after)
    (Drifts view (Function.update since reference.file ((since reference.file).defaulted text))) := by
  have kept : ∀ f t copy, settling since f t copy →
      settling (Function.update since reference.file ((since reference.file).defaulted text)) f t copy := by
    intro f t copy is
    by_cases here : f = reference.file
    · subst here
      unfold settling
      rw [Function.update_self]
      exact ⟨is.1.among (List.subset_cons_self _ _), is.2⟩
    · unfold settling
      rwa [Function.update_of_ne here]
  refine (h.has.endsSetDefault follows (settlingDecoded since given) reference text kept ?_).weaken
    (fun _ _ browses => ⟨_, _, _, h.browsed browses⟩) fun _ no => ⟨_, _, _, h.browsed no.2⟩
  rintro t copy ⟨agrees, arrays⟩
  unfold settling
  rw [Tree.settledSetDefault, Function.update_self]
  exact ⟨agrees.setDefault reference.node text, fun given => (arrays given).setDefault reference.node text⟩

theorem endsFlush : (flush store).Ends (index, s) (fun _ after => Drifts view since after) (Drifts view since) := by
  unfold flush
  refine endsOnNames ((h.tells.endsFlush follows h.drawn.fits).weaken ?_ ?_)
  · rintro _ ⟨names, s'⟩ ⟨w, keeps⟩
    exact ⟨_, _, _, h.written w rfl keeps h.drawn⟩
  · rintro ⟨names, s'⟩ ⟨-, w, keys, files, -, overwrites⟩
    exact ⟨_, _, _, h.written w rfl (overwrites b h.keeps) (h.drawnKept.overwritten h.drawn keys files)⟩

theorem endsClear : (clear store).Ends (index, s) (fun _ after => Drifts view since after) (Drifts view since) := by
  unfold clear
  refine endsBind (endsChange (endsOnNames ((KeyIndex.endsClear follows _ s).weaken ?_ ?_)))
  · rintro _ ⟨names, s'⟩ ⟨blank, entries⟩
    have rests : Rests (view s') .none .none := entries ▸ .fresh _
    exact ⟨_, _, _, rests.blank blank fun file => LruCache.findClear _ file⟩
  · rintro ⟨names, s'⟩ ⟨-, blank, whole | gone⟩
    · have rests : Rests (view s') b given := whole ▸ h.rests
      exact ⟨_, _, _, rests.blank blank fun file => LruCache.findClear _ file⟩
    · have rests : Rests (view s') .none .none := gone ▸ .nothing
      exact ⟨_, _, _, rests.blank blank fun file => LruCache.findClear _ file⟩

theorem endsRemoveFile (file : FileId) : (removeFile store file).Ends (index, s)
    (fun _ after => Drifts view since after) (Drifts view since) := by
  have gone := index.trees.findErased file
  -- The tree goes before the names, which may stay.
  unfold removeFile
  refine endsBind (endsChange (endsBind (endsOnStore (((h.erased file).endsPlace follows file none nofun gone).weaken ?_
    fun _ left => ⟨_, _, _, left.2⟩))))
  intro _ s' removed
  refine endsOnNames ((removed.tells.endsRemoveFile follows file).weaken ?_ ?_)
  · intro _ after ⟨r, _⟩
    exact ⟨_, _, _, removed.named r.tells (h.drawn.put file (by decide) (by simp)) rfl r.store⟩
  · intro after ⟨_, r⟩
    exact ⟨_, _, _, removed.named r.tells h.drawn rfl r.store⟩

theorem endsIndexFile (file : FileId) {t : Tree} (fits : t.Fits) : (indexFile store file t).Ends (index, s)
    (fun _ after => Adrift view (Function.update since file ⟨some t, []⟩) after (a.put file (Trees.entriesOf file t)) b
      (given.put file (some t)))
    fun after => ∃ given', Adrift view since after a b given' ∧
      (PutsBack store file t (index, s) → given' = given) := by
  have own : ∀ t' ∈ some t, t'.Fits := fun _ same => Option.some.inj same ▸ fits
  have gone := index.trees.findErased file
  unfold indexFile
  refine endsBind (endsOnStore (((follows.get _ s).and (endsRun _ s)).weaken ?_
    fun s' ⟨⟨_, same⟩, _⟩ => ⟨given, h.elsewhere same, fun _ => rfl⟩))
  rintro previous? s' ⟨⟨same, found⟩, got⟩
  rw [h.has.stored] at found
  subst found
  have read : Adrift view since (index, s') a b given := h.elsewhere same
  refine endsBind (endsChange (endsBind (endsOnStore ((((read.erased file).endsPlace follows file (some t) own gone).and
    (endsRun _ s')).weaken ?_ fun _ ⟨left, _⟩ => ⟨given, left.2, fun _ => rfl⟩))))
  rintro _ s'' ⟨placed, put⟩
  refine endsBind (endsTry (endsOnNames (((placed.tells.endsUpdate follows file (Trees.entriesCoded fits)).and
    (endsRun _ _)).weaken ?_ ?_)))
  · rintro _ ⟨names, last⟩ ⟨r, -⟩
    refine endsChange ⟨r.tells, h.drawn.putTree file fits, r.store ▸ placed.keeps, h.drawnKept,
      r.store ▸ placed.has.stored, cachedPut h.has.cached ?_ ?_ foundReplaced, placed.has.fit⟩
    · intro t' own
      unfold settling
      rw [Function.update_self]
      exact ⟨Tree.agreesSelf _ t'.settled, fun arrays => arrays t' own⟩
    · intro f t' copy other agrees
      unfold settling
      rwa [Function.update_of_ne other]
  · rintro ⟨names, failed⟩ ⟨⟨-, r⟩, e, ran⟩ fault
    have kept : Adrift view since ({ index with names, trees := (index.trees.erase file).2 }, failed) a b
        (given.put file (some t)) := placed.named r.tells h.drawn rfl r.store
    refine endsBind (endsTry (endsOnStore (((kept.endsPlace follows file (given file) (h.has.fit file) gone).and
      (endsRun _ failed)).weaken ?_ ?_)))
    · rintro _ last ⟨back, -⟩
      rw [given.putBack] at back
      exact ⟨given, back, fun _ => rfl⟩
    · rintro last ⟨⟨-, left⟩, e', ran'⟩ -
      refine ⟨_, left, fun putsBack => ?_⟩
      obtain ⟨last', restored⟩ := putsBack _ _ _ _ _ got put ran
      cases ran'.symm.trans restored

theorem endsServe {request : Request} (fits : request.Fits) (same : ∀ version, request ≠ .reopen version)
    (capacity : Nat) : (serve store capacity request).Ends (index, s)
      (fun reply after => Drifts view (sinceServed since request (.ok reply)) after) (Drifts view since) := by
  cases request with
  | indexFile file t =>
    refine endsBind ((h.endsIndexFile follows file fits).weaken ?_ fun _ ⟨_, left, _⟩ => ⟨_, _, _, left⟩)
    exact fun _ _ changed => endsPure ⟨_, _, _, changed⟩
  | removeFile file => exact endsMap (h.endsRemoveFile follows file)
  | find name =>
    exact endsMap ((h.endsFind follows fits).weaken (fun _ _ told => ⟨_, _, _, told.2⟩) fun _ no => ⟨_, _, _, no.2⟩)
  | tree file =>
    exact endsMap ((h.has.endsTree follows (settlingDecoded since given) file).weaken
      (fun _ _ told => ⟨_, _, _, h.browsed told.2⟩) fun _ no => ⟨_, _, _, h.browsed no.2⟩)
  | resolve reference =>
    exact endsMap ((h.has.endsResolve follows (settlingDecoded since given) reference).weaken
      (fun _ _ told => ⟨_, _, _, h.browsed told.2⟩) fun _ no => ⟨_, _, _, h.browsed no.2⟩)
  | flush => exact endsBind ((h.endsFlush follows).weaken (fun _ _ flushed => endsPure flushed) fun _ => id)
  | clear => exact endsBind ((h.endsClear follows).weaken (fun _ _ cleared => endsPure cleared) fun _ => id)
  | reopen version => exact absurd rfl (same version)

end Adrift

section
variable {store : Store σ} {fails : Prop} (follows : store.Follows view fails)
include follows

theorem Rests.endsOpen {s : σ} (h : Rests (view s) b given) (version : UInt32) (capacity : Nat) :
    (openOn store version capacity).Ends s (fun index s' => Drifts view (fun _ => .nothing) (index, s'))
      fun s' => ∃ b given, Rests (view s') b given := by
  refine (endsOpening follows version s capacity).weaken ?_ ?_
  · rintro index s' ⟨⟨table, rfl⟩, entries⟩
    split at entries
    · have rests : Rests (view s') b given := entries ▸ h
      exact ⟨_, _, _, rests.blank rfl fun _ => rfl⟩
    · have rests : Rests (view s') .none .none := entries ▸ .fresh version
      exact ⟨_, _, _, rests.blank rfl fun _ => rfl⟩
  · rintro s' ⟨-, whole | gone⟩
    · exact ⟨_, _, whole ▸ h⟩
    · exact ⟨.none, .none, gone ▸ .nothing⟩

theorem Arises.drifts {start s : σ} (new : view start = .empty) {index? : Option NameIndex}
    (arises : Arises store start index? s since) :
    (∃ b given, Rests (view s) b given) ∧ ∀ index, index? = some index → Drifts view since (index, s) := by
  have both {since : FileId → Since} {after : NameIndex × σ} (told : Drifts view since after) :
      (∃ b given, Rests (view after.2) b given) ∧
        ∀ index, some after.1 = some index → Drifts view since (index, after.2) := by
    refine ⟨?_, fun index same => Option.some.inj same ▸ told⟩
    obtain ⟨a, b, given, adrift⟩ := told
    exact ⟨b, given, adrift.rests⟩
  induction arises with
  | start => exact ⟨⟨.none, .none, new ▸ .nothing⟩, nofun⟩
  | @opened _ s s' _ answer _ version capacity ran ih =>
    obtain ⟨⟨b, given, rests⟩, -⟩ := ih
    have ended := rests.endsOpen follows version capacity
    cases answer with
    | error e => exact ⟨ended.stopped ran, nofun⟩
    | ok index => exact both (ended.answered ran)
  | @served index s since request answer after _ fits same ran ih =>
    obtain ⟨a, b, given, adrift⟩ := ih.2 _ rfl
    have ended := adrift.endsServe follows fits same 0
    cases answer with
    | error e =>
      rw [sinceFailed]
      exact both (ended.stopped ran)
    | ok reply => exact both (ended.answered ran)
  | defaulted _ reference text ran ih =>
    obtain ⟨a, b, given, adrift⟩ := ih.2 _ rfl
    have told := (adrift.endsSetDefault follows reference text).always
    rw [ran] at told
    exact both told
  | visited _ scope accepts visitor start ran ih =>
    obtain ⟨a, b, given, adrift⟩ := ih.2 _ rfl
    have told := (adrift.endsVisit follows scope accepts visitor start).always
    rw [ran] at told
    exact both told

end

end SymbolCatalog.NameIndex
