import SymbolCatalog.Proofs.NameIndex.Resolution
import SymbolCatalog.Proofs.Tree.Agreement

/-! What names and files give after any run of an index of names, whether a tree is still in the
cache or was read again. -/
namespace SymbolCatalog.NameIndex
open ExceptT
variable {σ : Type}

inductive Act where
  | does (op : Op)
  | setDefault (reference : Reference) (text : String)

namespace Act

def Fits : Act → Prop
  | .does (.indexFile _ t) => t.Fits ∧ t.ArrayVarargs
  | .does op => op.Fits
  | .setDefault _ _ => True

theorem Fits.op {op : Op} (fits : (does op).Fits) : op.Fits := by
  cases op with
  | indexFile => exact fits.1
  | _ => exact fits

def perform (store : Store σ) : Act → Call σ Unit
  | .does op => NameIndex.perform store op
  | .setDefault reference text => do let _ ← NameIndex.setDefault store reference text

def treesAfter (trees : Trees) : Act → Trees
  | .does op => NameIndex.treesAfter trees op
  | .setDefault _ _ => trees

def textsAfter (texts : FileId → List String) : Act → FileId → List String
  | .does (.indexFile file _) => fun f => if f = file then [] else texts f
  | .does _ => texts
  | .setDefault reference text => fun f => if f = reference.file then text :: texts f else texts f

end Act

def treesOf (acts : List Act) : Trees := acts.foldl Act.treesAfter .none

def textsOf (acts : List Act) : FileId → List String := acts.foldl Act.textsAfter fun _ => []

def Named (t : Tree) (name : String) (node : NodeId) : Prop :=
  ∃ payload, t.payload? node = some payload ∧
    payload.kind ∈ [.classDecl, .field, .method, .annotationMethod] ∧ payload.name? = some name

theorem namedIff {t : Tree} {name : String} {node : NodeId} : Named t name node ↔ t.Declares name node := by
  unfold Named Tree.Declares
  simp only [Kind.indexedAmong]

variable {store : Store σ} {view : σ → Entries} {trees : Trees} {texts : FileId → List String}

def agreeing (texts : FileId → List String) : Copies := fun file => Tree.Agrees (texts file)

theorem agreeingDecoded (arrays : trees.Every Tree.ArrayVarargs) : (agreeing texts).Decoded trees :=
  fun file _ _ known nodes => Tree.agreesDecoded (texts file) (arrays file _ known) nodes

theorem carriesTexts (op : Op) : op.Carries (agreeing texts) (agreeing (Act.textsAfter texts (.does op))) where
  itself file t _ := Tree.agreesSelf _ t
  others f t copy other agrees := by
    cases op with
    | indexFile file t' =>
      have elsewhere : f ≠ file := fun same => other t' (same ▸ rfl)
      dsimp only [agreeing, Act.textsAfter]
      rwa [if_neg elsewhere]
    | _ => exact agrees

theorem endsAct (follows : store.Follows view False) {index : NameIndex} {s : σ}
    (h : HoldsBy (agreeing texts) index (view s) trees) (arrays : trees.Every Tree.ArrayVarargs) {act : Act}
    (fits : act.Fits) : (act.perform store).Ends (index, s)
      (fun _ after => HoldsBy (agreeing (act.textsAfter texts)) after.1 (view after.2) (act.treesAfter trees))
      fun _ => False := by
  cases act with
  | does op => exact endsPerform follows h (agreeingDecoded arrays) fits.op (carriesTexts op)
  | setDefault reference text =>
    let texts' := Act.textsAfter texts (.setDefault reference text)
    have kept : ∀ f t copy, agreeing texts f t copy → agreeing texts' f t copy := by
      intro f t copy agrees
      dsimp only [agreeing, texts', Act.textsAfter]
      split
      · exact agrees.among (List.subset_cons_self _ _)
      · exact agrees
    have changed : ∀ t copy, agreeing texts reference.file t copy →
        agreeing texts' reference.file t (copy.setDefault reference.node text) := by
      intro t copy agrees
      dsimp only [agreeing, texts', Act.textsAfter]
      rw [if_pos rfl]
      exact agrees.setDefault reference.node text
    exact endsBind ((endsSetDefault follows h (agreeingDecoded arrays) reference text kept changed).weaken
      (fun _ _ done => endsPure done) fun _ no => no.1)

theorem actArrays (arrays : trees.Every Tree.ArrayVarargs) {act : Act} (fits : act.Fits) :
    (act.treesAfter trees).Every Tree.ArrayVarargs := by
  cases act with
  | setDefault => exact arrays
  | does op =>
    cases op with
    | indexFile file t => exact arrays.put file fun t' same => Option.some.inj same ▸ fits.2
    | removeFile file => exact arrays.put file fun t none => absurd none (by simp)
    | clear => exact Trees.everyNone _
    | _ => exact arrays

theorem endsActs (follows : store.Follows view False) {acts : List Act} (fits : ∀ act ∈ acts, act.Fits)
    {index : NameIndex} {s : σ} (h : HoldsBy (agreeing texts) index (view s) trees)
    (arrays : trees.Every Tree.ArrayVarargs) : (acts.forM (Act.perform store)).Ends (index, s)
      (fun _ after => HoldsBy (agreeing (acts.foldl Act.textsAfter texts)) after.1 (view after.2)
          (acts.foldl Act.treesAfter trees) ∧ (acts.foldl Act.treesAfter trees).Every Tree.ArrayVarargs)
      fun _ => False := by
  induction acts generalizing index s trees texts with
  | nil => exact endsPure ⟨h, arrays⟩
  | cons act acts ih =>
    refine endsBind ((endsAct follows h arrays (fits act (.head _))).weaken ?_ fun _ => id)
    intro _ after holds
    exact ih (fun act mem => fits act (.tail _ mem)) holds (actArrays arrays (fits act (.head _)))

theorem givenRel {copies : Copies} {index : NameIndex} {entries : Entries}
    (h : HoldsBy copies index entries trees) (decoded : copies.Decoded trees) {file : FileId}
    {found : Option Tree} (given : Given index trees file found) :
    Option.Rel (copies file) (trees file) found := h.has.givenRel decoded given

/-- After every run of an index of names on a store that does not fail, a name gives in ascending
order the references to all its declarations in the trees with which the files were indexed last,
and nothing else. A file gives a tree exactly if it is indexed, and this tree agrees with the one it
was indexed with last, but for default values that were set in it since. -/
theorem lookupExact (follows : store.Follows view False) (version : UInt32) (capacity : Nat)
    (acts : List Act) (fits : ∀ act ∈ acts, act.Fits) (s : σ) (empty : view s = .empty) :
    ∃ index s', openAndRun store version capacity (acts.forM (Act.perform store)) s = (.ok index, s') ∧
      (∀ name, Short name → ∃ found after, find store name (index, s') = (.ok found, after) ∧
        found.Pairwise Reference.Before ∧
        ∀ r, r ∈ found ↔ ∃ t, treesOf acts r.file = some t ∧ Named t name r.node) ∧
      ∀ file, ∃ answer after, tree store file (index, s') = (.ok answer, after) ∧
        Option.Rel (Tree.Agrees (textsOf acts file)) (treesOf acts file) answer := by
  obtain ⟨index, s', run, holds, arrays⟩ := endsOpenAndRun follows version capacity empty
    fun _ _ opened => endsActs follows fits opened (Trees.everyNone _)
  refine ⟨index, s', run, fun name short => ?_, fun file => ?_⟩
  · obtain ⟨found, after, answered, finds, -⟩ := (endsFind follows holds short).surely
    refine ⟨found, after, answered, finds.ascending, fun r => ?_⟩
    simp only [namedIff]
    exact finds.complete r
  · have decoded : (agreeing (textsOf acts)).Decoded (treesOf acts) := agreeingDecoded arrays
    obtain ⟨answer, after, answered, given, -⟩ := (endsTree follows holds decoded file).surely
    exact ⟨answer, after, answered, givenRel holds decoded given⟩

def sampleActs : List Act :=
  [.does (.indexFile ⟨1⟩ Tree.sampleTree), .does (.find "x"), .setDefault ⟨⟨1⟩, ⟨4⟩⟩ "2", .does .flush,
    .does (.indexFile ⟨2⟩ sampleTree), .does (.reopen 0), .does (.tree ⟨1⟩), .setDefault ⟨⟨1⟩, ⟨3⟩⟩ "3",
    .does (.indexFile ⟨2⟩ Tree.sampleTree), .does (.removeFile ⟨3⟩)]

theorem sampleActsFit : ∀ act ∈ sampleActs, act.Fits := by
  have short : Short "x" := by decide
  have fits : Tree.sampleTree.Fits := ⟨Tree.storableAll (by decide +kernel), by decide +kernel⟩
  have arrays : Tree.sampleTree.ArrayVarargs := Tree.arraysAll (by decide +kernel)
  have arrays' : sampleTree.ArrayVarargs := Tree.arraysAll (by decide +kernel)
  simp [sampleActs, Act.Fits, Op.Fits, short, fits, arrays, sampleFits, arrays']

theorem sampleLookupExact :
    (memoryStore.Follows id False ∧ (∀ act ∈ sampleActs, act.Fits) ∧ id Entries.empty = .empty) ∧
    ∃ index s', openAndRun memoryStore 1 8 (sampleActs.forM (Act.perform memoryStore)) .empty = (.ok index, s') ∧
      (∀ name, Short name → ∃ found after, find memoryStore name (index, s') = (.ok found, after) ∧
        found.Pairwise Reference.Before ∧
        ∀ r, r ∈ found ↔ ∃ t, treesOf sampleActs r.file = some t ∧ Named t name r.node) ∧
      ∀ file, ∃ answer after, tree memoryStore file (index, s') = (.ok answer, after) ∧
        Option.Rel (Tree.Agrees (textsOf sampleActs file)) (treesOf sampleActs file) answer :=
  ⟨⟨memoryFollows, sampleActsFit, rfl⟩, lookupExact memoryFollows 1 8 sampleActs sampleActsFit .empty rfl⟩

end SymbolCatalog.NameIndex
