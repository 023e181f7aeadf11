import SymbolCatalog.Proofs.NameIndex.Drift

/-! What is left when a file cannot be indexed. The tree is stored before the names change; if they
cannot be changed, the bytes that were there before are put back. -/
namespace SymbolCatalog.NameIndex
open ExceptT
variable {σ τ : Type} {view : σ → Entries} {since : FileId → Since} {given : Trees}

theorem FindsTold.unique {a : Account String Reference} {name : String} {found found' : List Reference}
    (finds : FindsTold a name found) (finds' : FindsTold a name found') : found = found' := by
  obtain ⟨c, shows, rfl⟩ := finds
  obtain ⟨c', shows', rfl⟩ := finds'
  have same : c.pairs.Perm c'.pairs := (KeyIndex.sameShows shows shows').2 fun _ _ => Iff.rfl
  exact Reference.sortPerm (same.map _)

/- The tree of a file is the one that the bytes decode to, but for its ids and for default values that were
set since, and there is none if there are no bytes. What is read has no variadic types but arrays: if the
tree was indexed with others, these are left out of account. -/
def ShowsTree (other : Store τ) (file : FileId) (since : Since) (bytes? : Option Bytes)
    (state : NameIndex × τ) : Prop :=
  match bytes? with
  | none => (tree other file state).1 = .ok none
  | some bytes => ∃ read copy, Tree.read bytes = .ok read ∧ (tree other file state).1 = .ok (some copy) ∧
      (since.ArrayVarargs → Tree.Agrees since.texts read copy) ∧ Tree.Agrees since.texts read copy.settled

theorem HasTrees.showsTree {other : Store τ} {shown : τ → Entries} (works : other.Follows shown False)
    {index : NameIndex} {now : τ} (has : HasTrees (settling since) index (shown now) given) (file : FileId) :
    ShowsTree other file (since file) ((shown now).get? (treeKey file)) (index, now) := by
  obtain ⟨found, after, run, told, -⟩ := (has.endsTree works (settlingDecoded since given) file).surely
  have rel := has.givenRel (settlingDecoded since given) told
  rw [has.stored]
  cases known : given file with
  | none =>
    rw [known] at rel
    cases rel
    exact congrArg Prod.fst run
  | some t =>
    rw [known] at rel
    obtain ⟨read, table, decoded, nodes⟩ := Tree.decodeEncoded (has.fit file t known).storable .empty
    cases rel with
    | some is =>
      have agrees := Tree.Agrees.ofRead is.1 nodes
      refine ⟨read, _, congrArg Prod.fst decoded, congrArg Prod.fst run, fun arrays => ?_, agrees⟩
      rwa [Tree.settledSame (is.2 arrays)] at agrees

/-- Indexing a file fails on a store of which any call may fail at any time, but for the one that puts
the previous bytes back. The bytes in the place of the tree are those from before, and once the store
works again, or another one that does has its entries, every name finds what it found before, and the
tree of the file is the one that the bytes decode to: up to its ids, and up to the default values that
were set since the file was indexed, if it was last indexed with no variadic types but arrays. -/
theorem failedIndexingRolledBack {store : Store σ} (follows : store.Follows view True) {start s : σ}
    (new : view start = .empty) {index : NameIndex} (arises : Arises store start (some index) s since)
    {file : FileId} {t : Tree} (fits : t.Fits) (putsBack : PutsBack store file t (index, s)) {fault : Fault}
    {after : NameIndex × σ} (failed : indexFile store file t (index, s) = (.error fault, after)) :
    (view after.2).get? (treeKey file) = (view s).get? (treeKey file) ∧
    ∀ (τ : Type) (other : Store τ) (shown : τ → Entries), other.Follows shown False → ∀ now, shown now = view after.2 →
      (∀ before, shown before = view s →
        ∀ name, Short name → AnswersBy Eq (find other name) (index, before) (after.1, now)) ∧
      ShowsTree other file (since file) ((view s).get? (treeKey file)) (after.1, now) := by
  obtain ⟨a, b, given, adrift⟩ := (arises.drifts follows new).2 index rfl
  obtain ⟨given', left, same⟩ := (adrift.endsIndexFile follows file fits).stopped failed
  cases same putsBack
  have bytes : (view after.2).get? (treeKey file) = (view s).get? (treeKey file) := by
    rw [left.has.stored, adrift.has.stored]
  refine ⟨bytes, fun τ other shown works now seen => ⟨fun before seen' name short => ?_, ?_⟩⟩
  · obtain ⟨found, _, run, finds, -⟩ := ((adrift.elsewhere seen').endsFind works short).surely
    obtain ⟨found', _, run', finds', -⟩ := ((left.elsewhere seen).endsFind works short).surely
    exact ⟨found, found', congrArg Prod.fst run, congrArg Prod.fst run', finds.unique finds'⟩
  · rw [← bytes, ← seen]
    exact (left.elsewhere seen).has.showsTree works file

def replacedState : NameIndex × (List Bool × Entries) :=
  (serve flakyStore 0 (.indexFile ⟨1⟩ (classTree "A")) forgottenStart).2

theorem replacedArises : ∃ since, Arises flakyStore ([false, false, false, false, false, true], .empty)
    (some replacedState.1) replacedState.2 since := by
  have opened : Arises flakyStore ([false, false, false, false, false, true], .empty) (some forgottenStart.1)
      forgottenStart.2 fun _ => .nothing := .opened .start 1 8 rfl
  have fits : (Request.indexFile ⟨1⟩ (classTree "A")).Fits := ⟨Tree.storableAll (by decide +kernel), by decide⟩
  exact ⟨_, opened.served fits nofun rfl⟩

theorem replacementFails : ∃ fault after,
    indexFile flakyStore ⟨1⟩ (classTree "B") replacedState = (.error fault, after) := by
  have fails : (indexFile flakyStore ⟨1⟩ (classTree "B") replacedState).1.toOption.isNone := by decide +kernel
  rcases run : indexFile flakyStore ⟨1⟩ (classTree "B") replacedState with ⟨fault | _, after⟩
  · exact ⟨fault, after, rfl⟩
  · rw [run] at fails
    cases fails

theorem putsBackFlaky {store : Store σ} (flaky : store.Overlooks view) (file : FileId) (t : Tree)
    (state : NameIndex × σ) : PutsBack store file t state := by
  intro previous? s s' e failed _ _ _
  obtain ⟨_, last, ran, -⟩ := (endsRestoreFlaky flaky (treeKey file) previous? failed.2).succeeds
  exact ⟨last, ran⟩

theorem replacementRolledBack : flakyStore.Follows (·.2) True ∧ (classTree "B").Fits ∧
    PutsBack flakyStore ⟨1⟩ (classTree "B") replacedState ∧
    ∃ since, Arises flakyStore ([false, false, false, false, false, true], .empty) (some replacedState.1)
      replacedState.2 since ∧
    ∃ fault after, indexFile flakyStore ⟨1⟩ (classTree "B") replacedState = (.error fault, after) ∧
      after.2.2.get? (treeKey ⟨1⟩) = replacedState.2.2.get? (treeKey ⟨1⟩) ∧
      ∀ (τ : Type) (other : Store τ) (shown : τ → Entries), other.Follows shown False → ∀ now, shown now = after.2.2 →
        (∀ before, shown before = replacedState.2.2 →
          ∀ name, Short name → AnswersBy Eq (find other name) (replacedState.1, before) (after.1, now)) ∧
        ShowsTree other ⟨1⟩ (since ⟨1⟩) (replacedState.2.2.get? (treeKey ⟨1⟩)) (after.1, now) := by
  have fits : (classTree "B").Fits := ⟨Tree.storableAll (by decide +kernel), by decide⟩
  have putsBack := putsBackFlaky flakyOverlooks ⟨1⟩ (classTree "B") replacedState
  obtain ⟨since, arises⟩ := replacedArises
  obtain ⟨fault, after, failed⟩ := replacementFails
  exact ⟨flakyOverlooks.follows, fits, putsBack, since, arises, fault, after, failed,
    failedIndexingRolledBack flakyOverlooks.follows rfl arises fits putsBack failed⟩

def strippedTree : Tree := (Tree.ofFile none).grown [(⟨0⟩, .field "x" ((TypeRef.ofText "int...").withDepth 0) 0 none)]

def strippedState : NameIndex × (List Bool × Entries) :=
  (serve flakyStore 0 (.indexFile ⟨1⟩ strippedTree) (forgottenStart.1, [false, false, false, true], forgottenStart.2.2)).2

theorem strippedTreeStays :
    (∃ since, Arises flakyStore ([false, false, false, false, true], .empty) (some strippedState.1) strippedState.2 since) ∧
    (classTree "B").Fits ∧ PutsBack flakyStore ⟨1⟩ (classTree "B") strippedState ∧
    ∃ fault after, indexFile flakyStore ⟨1⟩ (classTree "B") strippedState = (.error fault, after) ∧
      ∃ bytes read copy, strippedState.2.2.get? (treeKey ⟨1⟩) = some bytes ∧ Tree.read bytes = .ok read ∧
        (tree memoryStore ⟨1⟩ (after.1, after.2.2)).1 = .ok (some copy) ∧ ∀ texts, ¬ Tree.Agrees texts read copy := by
  have opened : Arises flakyStore ([false, false, false, false, true], .empty) (some forgottenStart.1)
      ([false, false, false, true], forgottenStart.2.2) fun _ => .nothing := .opened .start 1 8 rfl
  have fits : (Request.indexFile ⟨1⟩ strippedTree).Fits := ⟨Tree.storableAll (by decide +kernel), by decide⟩
  have given : (classTree "B").Fits := ⟨Tree.storableAll (by decide +kernel), by decide⟩
  refine ⟨⟨_, opened.served fits nofun rfl⟩, given, putsBackFlaky flakyOverlooks ⟨1⟩ _ _, ?_⟩
  have fails : (indexFile flakyStore ⟨1⟩ (classTree "B") strippedState).1.toOption.isNone := by decide +kernel
  have shown : (tree memoryStore ⟨1⟩ ((indexFile flakyStore ⟨1⟩ (classTree "B") strippedState).2.1,
      (indexFile flakyStore ⟨1⟩ (classTree "B") strippedState).2.2.2)).1.toOption.join.map (·.arena) =
        some strippedTree.arena := by decide +kernel
  have stored : strippedState.2.2.get? (treeKey ⟨1⟩) = some strippedTree.encode := by decide +kernel
  have variadic : ¬ strippedTree.ArrayVarargs := fun arrays =>
    absurd (arrays ⟨1⟩ (.field "x" ((TypeRef.ofText "int...").withDepth 0) 0 none) (by decide +kernel) _ (.head _)
      (by decide +kernel)) (by decide +kernel)
  rcases run : indexFile flakyStore ⟨1⟩ (classTree "B") strippedState with ⟨fault | _, after⟩
  · rw [run] at shown
    rcases now : (tree memoryStore ⟨1⟩ (after.1, after.2.2)).1 with _ | _ | copy
    · rw [now] at shown
      cases shown
    · rw [now] at shown
      cases shown
    · rw [now] at shown
      obtain rfl : copy = strippedTree := by
        cases copy
        cases Option.some.inj shown
        rfl
      obtain ⟨read, table, decoded, nodes⟩ := Tree.decodeEncoded fits.storable .empty
      refine ⟨fault, after, rfl, _, read, _, stored, congrArg Prod.fst decoded, now, fun texts agrees => variadic ?_⟩
      exact agrees.arrayVarargs (Tree.settledRead nodes ▸ read.settledVarargs)
  · rw [run] at fails
    cases fails

end SymbolCatalog.NameIndex
