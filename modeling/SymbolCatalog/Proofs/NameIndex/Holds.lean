import SymbolCatalog.NameIndex.Session
import SymbolCatalog.Proofs.KeyIndex.Flush
import SymbolCatalog.Proofs.LruCache
import SymbolCatalog.Proofs.Tree.Declarations

/-! Which tree each file was indexed with last, and what it means that an index of names and its
store hold these trees. -/
namespace SymbolCatalog
open Wire

abbrev Trees := FileId → Option Tree

namespace Trees

def none : Trees := fun _ => .none

def put (trees : Trees) (file : FileId) (tree? : Option Tree) : Trees :=
  fun f => if f = file then tree? else trees f

theorem putBack (trees : Trees) (file : FileId) (tree? : Option Tree) :
    (trees.put file tree?).put file (trees file) = trees := by
  funext f
  unfold put
  split
  · next same => rw [same]
  · rfl

def entriesOf (file : FileId) (t : Tree) : List (String × Reference) :=
  t.declarations.map fun d => (d.1, ⟨file, d.2⟩)

def contents (trees : Trees) : Contents String Reference := fun file =>
  match trees file with
  | some t => entriesOf file t
  | .none => []

theorem contentsNone : none.contents = Contents.none := rfl

theorem contentsPut (trees : Trees) (file : FileId) (tree? : Option Tree) :
    (trees.put file tree?).contents =
      trees.contents.put file (match tree? with | some t => entriesOf file t | .none => []) := by
  funext f
  unfold contents put Contents.put
  by_cases same : f = file
  · subst same
    simp only [if_pos]
  · simp only [if_neg same]

theorem memEntriesOf {file : FileId} {t : Tree} {name : String} {reference : Reference} :
    (name, reference) ∈ entriesOf file t ↔ reference.file = file ∧ t.Declares name reference.node := by
  unfold entriesOf
  rw [List.mem_map]
  constructor
  · intro h
    obtain ⟨d, mem, same⟩ := h
    cases same
    exact ⟨rfl, Tree.memDeclarations.1 mem⟩
  · intro h
    obtain ⟨same, declared⟩ := h
    refine ⟨(name, reference.node), Tree.memDeclarations.2 declared, ?_⟩
    rw [← same]

theorem memContents {trees : Trees} {file : FileId} {name : String} {reference : Reference} :
    (name, reference) ∈ trees.contents file ↔
      reference.file = file ∧ ∃ t, trees file = some t ∧ t.Declares name reference.node := by
  unfold contents
  cases known : trees file with
  | none => simp
  | some t => simp [memEntriesOf]

def Every (good : Tree → Prop) (trees : Trees) : Prop := ∀ file t, trees file = some t → good t

theorem everyNone (good : Tree → Prop) : none.Every good := fun _ _ known => nomatch known

theorem Every.put {good : Tree → Prop} {trees : Trees} (every : trees.Every good) (file : FileId)
    {tree? : Option Tree} (new : ∀ t ∈ tree?, good t) : (trees.put file tree?).Every good := by
  intro f t known
  unfold Trees.put at known
  split at known
  · exact new t known
  · exact every f t known

def Fit (trees : Trees) : Prop := ∀ file t, trees file = some t → t.Fits

theorem fitNone : none.Fit := everyNone Tree.Fits

theorem Fit.put {trees : Trees} (fit : trees.Fit) (file : FileId) {tree? : Option Tree}
    (new : ∀ t ∈ tree?, t.Fits) : (trees.put file tree?).Fit := Every.put fit file new

theorem boundedNodup {numbers : List Nat} {n : Nat} (distinct : numbers.Nodup)
    (below : ∀ m ∈ numbers, m < n) : numbers.length ≤ n := by
  have drawn : numbers ⊆ List.range n := fun m mem => List.mem_range.2 (below m mem)
  have := distinct.length_le_of_subset drawn
  rwa [List.length_range] at this

theorem referencesFew {references : List Reference} (distinct : references.Nodup)
    (below : ∀ r ∈ references, r.node.index < 2 ^ 32 - 1) : references.length < 2 ^ 64 := by
  have code : (references.map fun r => r.file.raw.toNat * (2 ^ 32 - 1) + r.node.index).Nodup := by
    refine distinct.map_on fun a ha b hb same => ?_
    have boundA := below a ha
    have boundB := below b hb
    have file : a.file.raw.toNat = b.file.raw.toNat := by omega
    have node : a.node.raw.toNat = b.node.raw.toNat := by
      unfold NodeId.index at same
      omega
    obtain ⟨⟨fileA⟩, ⟨nodeA⟩⟩ := a
    obtain ⟨⟨fileB⟩, ⟨nodeB⟩⟩ := b
    cases UInt32.toNat_inj.1 file
    cases UInt32.toNat_inj.1 node
    rfl
  have few := boundedNodup (n := 2 ^ 32 * (2 ^ 32 - 1)) code fun m mem => by
    obtain ⟨r, hr, same⟩ := List.mem_map.1 mem
    have file := r.file.raw.toNat_lt
    have node := below r hr
    omega
  rw [List.length_map] at few
  omega

theorem Fit.contents {trees : Trees} (fit : trees.Fit) : trees.contents.Fits where
  values name references distinct occur := by
    refine referencesFew distinct fun r mem => ?_
    obtain ⟨file, hf⟩ := occur r mem
    obtain ⟨-, t, known, declared⟩ := memContents.1 hf
    have inTree := declared.inTree
    have few := (fit file t known).few
    omega
  keys file names distinct occur := by
    cases known : trees file with
    | none =>
      have empty : names = [] := by
        refine List.eq_nil_iff_forall_not_mem.2 fun name mem => ?_
        obtain ⟨r, hr⟩ := occur name mem
        obtain ⟨-, t, there, -⟩ := memContents.1 hr
        rw [known] at there
        cases there
      rw [empty]
      decide
    | some t =>
      have drawn : names ⊆ t.declarations.map (·.1) := by
        intro name mem
        obtain ⟨r, hr⟩ := occur name mem
        obtain ⟨-, t', there, declared⟩ := memContents.1 hr
        rw [known] at there
        cases there
        exact List.mem_map.2 ⟨(name, r.node), Tree.memDeclarations.2 declared, rfl⟩
      have length := distinct.length_le_of_subset drawn
      rw [List.length_map] at length
      have declarations := t.declarationsFew
      have few := (fit file t known).few
      omega

theorem entriesCoded {file : FileId} {t : Tree} (fits : t.Fits) :
    ∀ p ∈ entriesOf file t, ReadsBack p.1 ∧ ReadsBack p.2 := by
  intro p mem
  have declared := (memEntriesOf.1 mem).2
  exact ⟨readsBackText (declared.short fits.storable), readsBackReference p.2⟩

end Trees

namespace NameIndex
open KeyIndex (Beside versionKey containerFamily fileFamily)

theorem treeKeyInjective {a b : FileId} (h : treeKey a = treeKey b) : a = b := by
  cases a
  cases b
  exact congrArg _ (KeyIndex.wordBytesInjective (List.append_cancel_left h))

/- For each file, what may be in the cache as a copy of a tree. -/
abbrev Copies := FileId → Tree → Tree → Prop

structure HoldsBy (copies : Copies) (index : NameIndex) (entries : Entries) (trees : Trees) : Prop where
  names : KeyIndex.Holds index.names entries trees.contents
  stored : ∀ file, entries.get? (treeKey file) = (trees file).map (·.encode)
  cached : ∀ file copy, index.trees.find? file = some copy → ∃ t, trees file = some t ∧ copies file t copy
  fit : trees.Fit

def Copies.Decoded (copies : Copies) (trees : Trees) : Prop :=
  ∀ file t copy, trees file = some t → copy.nodes.toList = t.preorder.map t.restored → copies file t copy

theorem HoldsBy.mono {copies copies' : Copies} {index : NameIndex} {entries : Entries} {trees : Trees}
    (h : HoldsBy copies index entries trees) (sub : ∀ f t copy, copies f t copy → copies' f t copy) :
    HoldsBy copies' index entries trees := by
  refine ⟨h.names, h.stored, fun file copy found => ?_, h.fit⟩
  obtain ⟨t, known, is⟩ := h.cached file copy found
  exact ⟨t, known, sub file t copy is⟩

structure HasTrees (copies : Copies) (index : NameIndex) (entries : Entries) (trees : Trees) : Prop where
  stored : ∀ file, entries.get? (treeKey file) = (trees file).map (·.encode)
  cached : ∀ file copy, index.trees.find? file = some copy → ∃ t, trees file = some t ∧ copies file t copy
  fit : trees.Fit

theorem HoldsBy.has {copies : Copies} {index : NameIndex} {entries : Entries} {trees : Trees}
    (h : HoldsBy copies index entries trees) : HasTrees copies index entries trees := ⟨h.stored, h.cached, h.fit⟩

namespace HasTrees
variable {copies copies' : Copies} {index : NameIndex} {entries : Entries} {trees : Trees}

theorem mono (h : HasTrees copies index entries trees) (sub : ∀ f t copy, copies f t copy → copies' f t copy) :
    HasTrees copies' index entries trees := by
  refine ⟨h.stored, fun file copy found => ?_, h.fit⟩
  obtain ⟨t, known, is⟩ := h.cached file copy found
  exact ⟨t, known, sub file t copy is⟩

theorem used (h : HasTrees copies index entries trees) (file : FileId) :
    HasTrees copies { index with trees := (index.trees.get file).2 } entries trees := by
  refine ⟨h.stored, fun f copy found => ?_, h.fit⟩
  rw [LruCache.findGet] at found
  exact h.cached f copy found

theorem remembered (h : HasTrees copies index entries trees) {file : FileId} {t copy : Tree}
    (known : trees file = some t) (is : copies file t copy) (table : NameTable) :
    HasTrees copies { index with trees := index.trees.insert file copy, table } entries trees := by
  refine ⟨h.stored, fun f copy' found => ?_, h.fit⟩
  have found := LruCache.findInsert found
  by_cases here : f = file
  · rw [if_pos here] at found
    cases found
    exact ⟨t, here ▸ known, here ▸ is⟩
  · rw [if_neg here] at found
    exact h.cached f copy' found

end HasTrees

def Copy (t copy : Tree) : Prop := copy = t ∨ copy.nodes.toList = t.preorder.map t.restored

abbrev Holds := HoldsBy fun _ => Copy

theorem copyDecoded (trees : Trees) : Copies.Decoded (fun _ => Copy) trees :=
  fun _ _ _ _ nodes => .inr nodes

structure Stored (version : UInt32) (entries : Entries) (trees : Trees) : Prop where
  names : KeyIndex.Stored version entries trees.contents
  stored : ∀ file, entries.get? (treeKey file) = (trees file).map (·.encode)
  fit : trees.Fit

def beyond (entries : Entries) (place : { place : Bytes // place.head? ≠ some 0x10 }) : Option Bytes :=
  entries.get? place

theorem beyondAssign (entries : Entries) (file : FileId) (value? : Option Bytes) :
    beyond (entries.assign (treeKey file) value?) = beyond entries := by
  funext place
  unfold beyond
  rw [Entries.getAssign, if_neg]
  exact fun same => place.2 (congrArg List.head? same).symm

theorem namesBeyond {names : KeyIndex String Reference} {entries entries' : Entries}
    {contents : Contents String Reference} (h : KeyIndex.Holds names entries contents)
    (same : beyond entries' = beyond entries) : KeyIndex.Holds names entries' contents := by
  have get : ∀ place : Bytes, place.head? ≠ some 0x10 → entries'.get? place = entries.get? place :=
    fun place other => congrFun same ⟨place, other⟩
  refine h.elsewhere (get _ (by simp [versionKey])) (fun rest => get _ ?_) fun rest => get _ ?_
  · simp [containerFamily]
  · simp [fileFamily]

theorem namesElsewhere {names : KeyIndex String Reference} {entries : Entries}
    {contents : Contents String Reference} (h : KeyIndex.Holds names entries contents) (file : FileId)
    (value? : Option Bytes) : KeyIndex.Holds names (entries.assign (treeKey file) value?) contents :=
  namesBeyond h (beyondAssign entries file value?)

theorem tellsElsewhere {names : KeyIndex String Reference} {entries : Entries} {a : Account String Reference}
    (h : KeyIndex.Tells names entries a) (file : FileId) (value? : Option Bytes) :
    KeyIndex.Tells names (entries.assign (treeKey file) value?) a := by
  have get : ∀ place : Bytes, place.head? ≠ some 0x10 →
      (entries.assign (treeKey file) value?).get? place = entries.get? place :=
    fun place other => congrFun (beyondAssign entries file value?) ⟨place, other⟩
  refine h.elsewhere (fun rest => get _ ?_) fun rest => get _ ?_
  · simp [containerFamily]
  · simp [fileFamily]

theorem storedPut {entries : Entries} {trees : Trees}
    (h : ∀ file, entries.get? (treeKey file) = (trees file).map (·.encode)) (file : FileId)
    (tree? : Option Tree) (f : FileId) :
    (entries.assign (treeKey file) (tree?.map (·.encode))).get? (treeKey f) =
      ((trees.put file tree?) f).map (·.encode) := by
  rw [Entries.getAssign]
  unfold Trees.put
  by_cases same : f = file
  · subst same
    rw [if_pos rfl, if_pos rfl]
  · rw [if_neg fun key => same (treeKeyInjective key).symm, if_neg same, h]

theorem storedBeside {entries entries' : Entries} {trees : Trees}
    (h : ∀ file, entries.get? (treeKey file) = (trees file).map (·.encode))
    (beside : Beside entries entries') (file : FileId) :
    entries'.get? (treeKey file) = (trees file).map (·.encode) := by
  rw [beside _ (by simp [treeKey, treeFamily]) (by simp [treeKey, treeFamily]), h]

end NameIndex
end SymbolCatalog
