import SymbolCatalog.Proofs.NameIndex.Backed
import SymbolCatalog.Proofs.NameIndex.Resolution

/-! What names find in an index that takes the place of one which was not flushed: the names are
those of the trees at the last flush, and they point into the trees that were given last. -/
namespace SymbolCatalog.NameIndex
open ExceptT
variable {σ : Type}

structure Shelf where
  given : Trees
  saved : Trees

namespace Shelf

def empty : Shelf := ⟨.none, .none⟩

def after (shelf : Shelf) (op : Op) : Shelf where
  given := treesAfter shelf.given op
  saved := match op with
    | .flush | .reopen _ => shelf.given
    | .clear => .none
    | _ => shelf.saved

theorem givenAfter (ops : List Op) (shelf : Shelf) :
    (ops.foldl after shelf).given = ops.foldl treesAfter shelf.given := by
  induction ops generalizing shelf with
  | nil => rfl
  | cons op ops ih => exact ih (shelf.after op)

end Shelf

def saved (ops : List Op) : Trees := (ops.foldl Shelf.after .empty).saved

/- What an index and its store hold, and what the store holds of it by itself. -/
structure Shelved (view : σ → Entries) (version : UInt32) (state : NameIndex × σ) (shelf : Shelf) : Prop where
  holds : Holds state.1 (view state.2) shelf.given
  names : KeyIndex.Stored version (view state.2) shelf.saved.contents
  fit : shelf.saved.Fit

variable {view : σ → Entries} {store : Store σ} {version : UInt32} {state : NameIndex × σ} {shelf : Shelf}

theorem Shelved.sameVersion (h : Shelved view version state shelf) : state.1.names.version = version := by
  have both := h.holds.names.stamped.symm.trans h.names.stamped
  exact KeyIndex.wordBytesInjective (Option.some.inj both)

section
variable (follows : store.Follows view False)
include follows

theorem Shelved.endsNames {op : Op} (h : Shelved view version state shelf) :
    (perform store op).Ends state
      (fun _ after => KeyIndex.Stored version (view after.2) (shelf.after op).saved.contents) fun _ => True := by
  have beyond : ∀ s : σ, beyond (view s) = beyond (view state.2) →
      KeyIndex.Stored version (view s) shelf.saved.contents := fun s same => namesBeyond h.names same
  have entries : ∀ s : σ, view s = view state.2 → KeyIndex.Stored version (view s) shelf.saved.contents :=
    fun s same => same ▸ h.names
  have flushes : (flush store).Ends state (fun _ after =>
      after.1.names.version = version ∧ KeyIndex.Stored version (view after.2) shelf.given.contents) fun _ => True := by
    refine (endsFlush follows h.holds).weaken ?_ fun _ _ => trivial
    intro _ after ⟨_, stored, kept⟩
    rw [h.sameVersion] at stored kept
    exact ⟨kept, stored.names⟩
  cases op with
  | indexFile file t =>
    exact ((seesIndexFile follows file t).ends state).weaken (fun _ after => beyond after.2) fun _ _ => trivial
  | removeFile file =>
    exact endsBind (((seesRemoveFile follows file).ends state).weaken
      (fun _ after same => endsPure (beyond after.2 same)) fun _ _ => trivial)
  | find name =>
    exact endsBind (((seesFind follows name).ends state).weaken
      (fun _ after same => endsPure (entries after.2 (Prod.mk.inj same).2)) fun _ _ => trivial)
  | tree file =>
    exact endsBind ((h.holds.has.endsTree follows (copyDecoded _) file).weaken
      (fun _ after told => endsPure (entries after.2 told.2.store)) fun _ _ => trivial)
  | resolve r =>
    exact endsBind ((h.holds.has.endsResolve follows (copyDecoded _) r).weaken
      (fun _ after told => endsPure (entries after.2 told.2.store)) fun _ _ => trivial)
  | flush => exact flushes.weaken (fun _ _ flushed => flushed.2) fun _ => id
  | clear =>
    have same := h.sameVersion
    obtain ⟨index, s⟩ := state
    refine endsBind (endsChange (endsOnNames ((KeyIndex.endsClear follows _ s).weaken ?_ fun _ _ => trivial)))
    intro _ after ⟨_, written⟩
    dsimp only at written ⊢
    rw [written, same]
    exact (freshStored version).names
  | reopen capacity =>
    refine endsBind (flushes.weaken ?_ fun _ => id)
    intro _ ⟨index, s⟩ ⟨same, stored⟩
    refine endsBind (endsNow (endsBind (endsOnStore ((endsOpenNames follows _ s capacity).weaken ?_ fun _ no => no.elim))))
    intro index' s' ⟨_, opened⟩
    have stamped : (view s).get? KeyIndex.versionKey = some (KeyIndex.stamp version) := stored.stamped
    dsimp only at same opened
    rw [same, if_pos stamped] at opened
    refine endsChange ?_
    dsimp only
    rw [opened]
    exact stored

theorem Shelved.endsAfter {op : Op} (h : Shelved view version state shelf) (fits : op.Fits) :
    (perform store op).Ends state (fun _ after => Shelved view version after (shelf.after op)) fun _ => False := by
  have both := (endsPerform follows h.holds (copyDecoded _) fits op.carriesCopy).and (h.endsNames follows)
  refine both.weaken (fun _ after told => ⟨told.1, told.2, ?_⟩) fun _ no => no.1
  cases op with
  | flush | reopen => exact h.holds.fit
  | clear => exact Trees.fitNone
  | _ => exact h.fit

theorem Shelved.endsAll {ops : List Op} (h : Shelved view version state shelf) (fits : ∀ op ∈ ops, op.Fits) :
    (ops.forM (perform store)).Ends state
      (fun _ after => Shelved view version after (ops.foldl Shelf.after shelf)) fun _ => False := by
  induction ops generalizing state shelf with
  | nil => exact endsPure h
  | cons op ops ih =>
    refine endsBind ((h.endsAfter follows (fits op (.head _))).weaken ?_ fun _ => id)
    exact fun _ after shelved => ih shelved fun op mem => fits op (.tail _ mem)

theorem endsResolveBacked {index : NameIndex} {s : σ} (backed : Backed index.trees (places (view s)))
    {reference : Reference} {tree? : Option Tree} (found : lookUp (places (view s)) reference.file = .ok tree?) :
    (resolve store reference).Ends (index, s) (fun answer _ => answer = tree?.bind fun tree =>
      if tree.contains reference.node then some ⟨tree, reference.node⟩ else none) fun _ => False := by
  obtain ⟨index', s', run, -⟩ := treeLooksUp follows backed reference.file
  unfold resolve
  refine endsBind ?_
  unfold Ends
  rw [run, found]
  cases tree? <;> exact rfl

omit follows in
theorem lookUpStored {entries : Entries} {trees : Trees}
    (stored : ∀ file, entries.get? (treeKey file) = (trees file).map (·.encode)) (fit : trees.Fit) (file : FileId) :
    ∃ copy?, lookUp (places entries) file = .ok copy? ∧
      Option.Rel (fun t copy : Tree => copy.nodes.toList = t.preorder.map t.restored) (trees file) copy? := by
  unfold lookUp places
  rw [stored]
  cases known : trees file with
  | none => exact ⟨none, rfl, .none⟩
  | some t =>
    obtain ⟨copy, table, read, nodes⟩ := Tree.decodeEncoded (fit file t known).storable .empty
    have read : Tree.read t.encode = .ok copy := congrArg (·.1) read
    rw [Option.map_some, Option.map_some, read]
    exact ⟨some copy, rfl, .some nodes⟩

def Stands (trees : Trees) (name : String) (reference : Reference) : Prop :=
  ∃ t node, trees reference.file = some t ∧ t.Declares name node ∧ t.place node = reference.node

theorem endsResolveStored {index : NameIndex} {s : σ} {trees : Trees} (backed : Backed index.trees (places (view s)))
    (stored : ∀ file, (view s).get? (treeKey file) = (trees file).map (·.encode)) (fit : trees.Fit)
    (reference : Reference) : (resolve store reference).Ends (index, s)
      (fun answer _ => ∀ name, (∃ d kind, answer = some d ∧ d.name? = some name ∧ d.kind? = some kind ∧
        kind ∈ [.classDecl, .field, .method, .annotationMethod]) ↔ Stands trees name reference) fun _ => False := by
  obtain ⟨copy?, found, rel⟩ := lookUpStored stored fit reference.file
  refine (endsResolveBacked follows backed found).weaken ?_ fun _ => id
  intro answer _ same name
  subst same
  unfold Stands
  cases known : trees reference.file with
  | none =>
    rw [known] at rel
    cases rel
    simp
  | some t =>
    rw [known] at rel
    obtain ⟨nodes⟩ := rel
    rw [boundDeclares, Tree.declaresDecoded nodes]
    simp

theorem Shelved.resolvesIff {index : NameIndex} {s : σ} (h : Shelved view version (index, s) shelf) (capacity : Nat) :
    ∃ again s', openOn store version capacity s = (.ok again, s') ∧
      (Resolves store (again, s') ↔ ∀ file t, shelf.saved file = some t → ∀ name node, t.Declares name node →
        Stands shelf.given name ⟨file, node⟩) := by
  obtain ⟨again, s', run, ⟨table, same⟩, after⟩ := (endsOpenNames follows version s capacity).succeeds
  have stamped : (view s).get? KeyIndex.versionKey = some (KeyIndex.stamp version) := h.names.stamped
  rw [if_pos stamped] at after
  subst same
  have names : KeyIndex.Stored version (view s') shelf.saved.contents := after.symm ▸ h.names
  have replies : ∀ (after : NameIndex × σ) r, after.1.trees = .empty capacity → view after.2 = view s' →
      (resolve store r).Ends after (fun answer _ => ∀ name, (∃ d kind, answer = some d ∧ d.name? = some name ∧
        d.kind? = some kind ∧ kind ∈ [.classDecl, .field, .method, .annotationMethod]) ↔
          Stands shelf.given name r) fun _ => False := by
    intro ⟨index', s''⟩ r cache same
    dsimp only at cache same
    refine endsResolveStored follows (cache ▸ .empty capacity) (fun file => ?_) h.holds.fit r
    rw [same, after]
    exact h.holds.stored file
  refine ⟨_, s', run, ?_⟩
  constructor
  · intro resolves file t known name node declared
    have short := declared.short (h.fit file t known).storable
    obtain ⟨found, last, right, finds, -, cache, same⟩ := (resolves name short).meets (endsFindNames follows names short)
    have mem : (⟨file, node⟩ : Reference) ∈ found := (finds.complete ⟨file, node⟩).2 ⟨t, known, declared⟩
    obtain ⟨answer, _, good, told⟩ := (right _ mem).meets (replies last ⟨file, node⟩ cache same)
    exact (told name).1 good
  · intro stands name short
    refine (endsFindNames follows names short).weaken ?_ fun _ no => no.1
    intro found last ⟨finds, _, cache, same⟩ r mem
    obtain ⟨t, known, declared⟩ := (finds.complete r).1 mem
    refine (replies last r cache same).weaken ?_ fun _ => id
    exact fun answer _ told => (told name).2 (stands r.file t known name r.node declared)

omit follows in
theorem everyIndexed {good : Tree → Prop} {ops : List Op} (each : ∀ file t, .indexFile file t ∈ ops → good t)
    {trees : Trees} (every : trees.Every good) : (ops.foldl treesAfter trees).Every good := by
  induction ops generalizing trees with
  | nil => exact every
  | cons op ops ih =>
    refine ih (fun file t mem => each file t (.tail _ mem)) ?_
    cases op with
    | indexFile file t => exact every.put file fun t' same => Option.some.inj same ▸ each file t (.head _)
    | removeFile file => exact every.put file fun t none => absurd none (by simp)
    | clear => exact Trees.everyNone good
    | _ => exact every

omit follows in
theorem standsInOrder {trees : Trees} (order : trees.Every fun t => t.preorder = t.ids) {name : String}
    {reference : Reference} : Stands trees name reference ↔
      ∃ t, trees reference.file = some t ∧ t.Declares name reference.node := by
  constructor
  · intro ⟨t, node, known, declared, place⟩
    rw [Tree.placeInOrder (order _ t known) declared.inTree] at place
    exact ⟨t, known, place ▸ declared⟩
  · intro ⟨t, known, declared⟩
    exact ⟨t, reference.node, known, declared, Tree.placeInOrder (order _ t known) declared.inTree⟩

theorem sessionShelved (version : UInt32) (capacity : Nat) (ops : List Op) (fits : ∀ op ∈ ops, op.Fits) (s : σ)
    (empty : view s = .empty) : ∃ index s', session store version capacity ops s = (.ok index, s') ∧
      Shelved view version (index, s') (ops.foldl Shelf.after .empty) := by
  obtain ⟨first, t, opened, ⟨table, same⟩, fresh⟩ := (endsOpenNames follows version s capacity).succeeds
  subst same
  rw [empty, if_neg (by simp [Entries.getEmpty])] at fresh
  have start := freshStored version
  rw [← fresh] at start
  have shelved : Shelved view version (⟨.empty version, .empty capacity, table⟩, t) .empty :=
    ⟨start.opened capacity table, start.names, Trees.fitNone⟩
  obtain ⟨_, ⟨index, s'⟩, run, last⟩ := (shelved.endsAll follows fits).succeeds
  refine ⟨index, s', ?_, last⟩
  unfold session
  rw [opened]
  dsimp only
  rw [run]

/-- After every run of an index of names on a store that does not fail, an index of the same version can
be opened on the store without a flush. It finds the names of the trees at the last flush, in the trees
given last. So every reference found by a name resolves to a declaration of that name if and only if
each declaration of a tree at the last flush has one of this name at its id in the tree given last. -/
theorem restartResolvesExactly (version : UInt32) (capacity capacity' : Nat) (ops : List Op)
    (fits : ∀ op ∈ ops, op.Fits) (order : ∀ file t, .indexFile file t ∈ ops → t.preorder = t.ids) (s : σ)
    (empty : view s = .empty) :
    ∃ index s', session store version capacity ops s = (.ok index, s') ∧
    ∃ again s'', openOn store version capacity' s' = (.ok again, s'') ∧
      (Resolves store (again, s'') ↔ ∀ file t, saved ops file = some t → ∀ name node, t.Declares name node →
        ∃ t', indexed ops file = some t' ∧ t'.Declares name node) := by
  obtain ⟨index, s', run, last⟩ := sessionShelved follows version capacity ops fits s empty
  obtain ⟨again, s'', reopened, iff⟩ := last.resolvesIff follows capacity'
  refine ⟨index, s', run, again, s'', reopened, iff.trans ?_⟩
  have given : (ops.foldl Shelf.after .empty).given = indexed ops := Shelf.givenAfter ops .empty
  have ordered : (indexed ops).Every fun t => t.preorder = t.ids := everyIndexed order (Trees.everyNone _)
  simp only [given, standsInOrder ordered]
  rfl

end

def classTree (name : String) : Tree := (Tree.ofFile none).grown [(⟨0⟩, .classDecl name 0)]

def renamedRun : List Op := [.indexFile ⟨1⟩ (classTree "A"), .flush, .indexFile ⟨1⟩ (classTree "B")]

theorem renamedFits : ∀ op ∈ renamedRun, op.Fits := by
  have old : (classTree "A").Fits := ⟨Tree.storableAll (by decide +kernel), by decide⟩
  have new : (classTree "B").Fits := ⟨Tree.storableAll (by decide +kernel), by decide⟩
  simp [renamedRun, Op.Fits, old, new]

theorem renamedResolvesExactly :
    (memoryStore.Follows id False ∧ (∀ op ∈ renamedRun, op.Fits) ∧
      (∀ file t, .indexFile file t ∈ renamedRun → t.preorder = t.ids) ∧ id Entries.empty = .empty) ∧
    ∃ index s', session memoryStore 1 8 renamedRun .empty = (.ok index, s') ∧
    ∃ again s'', openOn memoryStore 1 8 s' = (.ok again, s'') ∧
      (Resolves memoryStore (again, s'') ↔ ∀ file t, saved renamedRun file = some t → ∀ name node,
        t.Declares name node → ∃ t', indexed renamedRun file = some t' ∧ t'.Declares name node) := by
  have old : (classTree "A").preorder = (classTree "A").ids := by decide +kernel
  have new : (classTree "B").preorder = (classTree "B").ids := by decide +kernel
  have order : ∀ file t, .indexFile file t ∈ renamedRun → t.preorder = t.ids := by
    intro file t mem
    have either : file = ⟨1⟩ ∧ t = classTree "A" ∨ file = ⟨1⟩ ∧ t = classTree "B" := by simpa [renamedRun] using mem
    rcases either with ⟨-, same⟩ | ⟨-, same⟩
    · exact same ▸ old
    · exact same ▸ new
  exact ⟨⟨memoryFollows, renamedFits, order, rfl⟩,
    restartResolvesExactly memoryFollows 1 8 8 renamedRun renamedFits order .empty rfl⟩

theorem renamedClassMixed : ∃ index s' again s'', session memoryStore 1 8 renamedRun .empty = (.ok index, s') ∧
    openOn memoryStore 1 8 s' = (.ok again, s'') ∧ ¬ Resolves memoryStore (again, s'') := by
  obtain ⟨index, s', run, last⟩ := sessionShelved memoryFollows 1 8 renamedRun renamedFits .empty rfl
  obtain ⟨again, s'', reopened, iff⟩ := last.resolvesIff memoryFollows 8
  refine ⟨index, s', again, s'', run, reopened, fun resolves => ?_⟩
  have declared : (classTree "A").Declares "A" ⟨1⟩ := Tree.memDeclarations.1 (by decide +kernel)
  obtain ⟨t, node, known, named, -⟩ := iff.1 resolves ⟨1⟩ (classTree "A") rfl "A" ⟨1⟩ declared
  cases known
  have among := Tree.memDeclarations.2 named
  have all : (classTree "B").declarations = [("B", ⟨1⟩)] := by decide +kernel
  rw [all] at among
  simp at among

end SymbolCatalog.NameIndex
