import SymbolCatalog.Proofs.NameIndex.Holds

/-! What the calls of an index of names come to. The calls that only read may fail without effect;
those that change something are told for a store that does not fail. -/
namespace SymbolCatalog

namespace Reference

def Before (a b : Reference) : Prop :=
  a.file.raw < b.file.raw ∨ a.file = b.file ∧ a.node.raw < b.node.raw

theorem leIff {a b : Reference} : a.le b ↔ a.Before b ∨ a = b := by
  obtain ⟨⟨f⟩, ⟨n⟩⟩ := a
  obtain ⟨⟨g⟩, ⟨m⟩⟩ := b
  by_cases same : f = g
  · subst same
    simp [le, Before, UInt32.le_iff_lt_or_eq]
  · have files : (⟨f⟩ : FileId) ≤ ⟨g⟩ ↔ f ≤ g := Iff.rfl
    simp [le, Before, same, files, UInt32.le_iff_lt_or_eq]

theorem Before.trans {a b c : Reference} (first : a.Before b) (second : b.Before c) : a.Before c := by
  rcases first with less | ⟨same, less⟩ <;> rcases second with less' | ⟨same', less'⟩
  · exact .inl (UInt32.lt_trans less less')
  · exact .inl (same' ▸ less)
  · exact .inl (same ▸ less')
  · exact .inr ⟨same.trans same', UInt32.lt_trans less less'⟩

theorem notBeforeSelf (r : Reference) : ¬ r.Before r := by
  rintro (less | ⟨-, less⟩) <;> exact UInt32.lt_irrefl _ less

theorem leAntisymm {a b : Reference} (first : a.le b) (second : b.le a) : a = b := by
  rcases leIff.1 first with less | same
  · rcases leIff.1 second with less' | same'
    · exact absurd (less.trans less') a.notBeforeSelf
    · exact same'.symm
  · exact same

theorem leTrans (a b c : Reference) (first : a.le b) (second : b.le c) : a.le c := by
  rw [leIff] at first second ⊢
  rcases first with less | same
  · rcases second with less' | same'
    · exact .inl (less.trans less')
    · exact .inl (same' ▸ less)
  · exact same ▸ second

theorem leTotal (a b : Reference) : a.le b || b.le a := by
  unfold le
  by_cases same : a.file = b.file
  · rw [if_pos same, if_pos same.symm, Bool.or_eq_true, decide_eq_true_iff, decide_eq_true_iff]
    exact UInt32.le_total _ _
  · rw [if_neg same, if_neg (Ne.symm same), Bool.or_eq_true, decide_eq_true_iff, decide_eq_true_iff]
    exact UInt32.le_total a.file.raw b.file.raw

theorem sortedBefore {references : List Reference} (distinct : references.Nodup) :
    (references.mergeSort le).Pairwise Before := by
  have sorted := @List.pairwise_mergeSort _ le leTrans leTotal references
  have apart := (List.mergeSort_perm references le).nodup_iff.2 distinct
  refine (sorted.and apart).imp ?_
  intro a b ⟨le, ne⟩
  exact (leIff.1 le).resolve_right ne

theorem sortPerm {references references' : List Reference} (perm : references.Perm references') :
    references.mergeSort le = references'.mergeSort le := by
  have sorted := List.pairwise_mergeSort leTrans leTotal
  have perm := (List.mergeSort_perm references le).trans (perm.trans (List.mergeSort_perm references' le).symm)
  exact perm.eq_of_pairwise (fun a b _ _ => leAntisymm) (sorted references) (sorted references')

end Reference

namespace NameIndex
open ExceptT
variable {σ α : Type}

theorem endsOnStore {call : StoreCall σ α} {index : NameIndex} {s : σ}
    {done : α → NameIndex × σ → Prop} {failed : NameIndex × σ → Prop}
    (h : call.Ends s (fun a s => done a (index, s)) fun s => failed (index, s)) :
    (onStore call : Call σ α).Ends (index, s) done failed := by
  have run : onStore call (index, s) = ((call s).1.mapError .storage, index, (call s).2) := rfl
  unfold Ends at h ⊢
  rw [run]
  rcases hc : call s with ⟨e | a, s'⟩ <;> rw [hc] at h <;> exact h

theorem endsOnNames {call : KeyIndex.Call String Reference σ α} {index : NameIndex} {s : σ}
    {done : α → NameIndex × σ → Prop} {failed : NameIndex × σ → Prop}
    (h : call.Ends (index.names, s) (fun a after => done a ({ index with names := after.1 }, after.2))
      fun after => failed ({ index with names := after.1 }, after.2)) :
    (onNames call : Call σ α).Ends (index, s) done failed := by
  have run : onNames call (index, s) = ((call (index.names, s)).1.mapError .storage,
      { index with names := (call (index.names, s)).2.1 }, (call (index.names, s)).2.2) := rfl
  unfold Ends at h ⊢
  rw [run]
  rcases hc : call (index.names, s) with ⟨e | a, after⟩ <;> rw [hc] at h <;> exact h

theorem endsNow {index : NameIndex} {s : σ} {done : NameIndex → NameIndex × σ → Prop}
    {failed : NameIndex × σ → Prop} (h : done index (index, s)) :
    Ends (now : Call σ NameIndex) (index, s) done failed := h

theorem endsChange {index : NameIndex} {s : σ} {f : NameIndex → NameIndex}
    {done : Unit → NameIndex × σ → Prop} {failed : NameIndex × σ → Prop}
    (h : done () (f index, s)) : Ends (change f : Call σ Unit) (index, s) done failed := h

variable {store : Store σ} {view : σ → Entries} {fails : Prop} {copies copies' : Copies}

structure Finds (trees : Trees) (name : String) (found : List Reference) : Prop where
  ascending : found.Pairwise Reference.Before
  complete : ∀ r, r ∈ found ↔ ∃ t, trees r.file = some t ∧ t.Declares name r.node

theorem Finds.unique {trees : Trees} {name : String} {found found' : List Reference} (finds : Finds trees name found)
    (finds' : Finds trees name found') : found = found' := by
  have distinct {references : List Reference} (ascending : references.Pairwise Reference.Before) :
      references.Nodup := ascending.imp (by
        intro a b before same
        exact b.notBeforeSelf (same ▸ before))
  have perm : found.Perm found' :=
    (List.perm_ext_iff_of_nodup (distinct finds.ascending) (distinct finds'.ascending)).2
      fun r => (finds.complete r).trans (finds'.complete r).symm
  refine perm.eq_of_pairwise (fun a b _ _ before after => ?_) finds.ascending finds'.ascending
  exact absurd (before.trans after) a.notBeforeSelf

theorem findsSorted {trees : Trees} {name : String} {c : Occurrences Reference}
    (shows : KeyIndex.Shows c trees.contents name) :
    Finds trees name ((c.pairs.map (·.2)).mergeSort Reference.le) := by
  have own : ∀ p ∈ c.pairs, p.2.file = p.1 := fun p mem =>
    (Trees.memContents.1 ((shows p.1 p.2).1 mem)).1
  refine ⟨Reference.sortedBefore (c.pairsNodup.map_on fun a ha b hb same => ?_), fun r => ?_⟩
  · exact Prod.ext (by rw [← own a ha, ← own b hb, same]) same
  · rw [List.mem_mergeSort, List.mem_map]
    constructor
    · intro mem
      obtain ⟨⟨file, value⟩, pair, same⟩ := mem
      cases same
      obtain ⟨same, there⟩ := Trees.memContents.1 ((shows file value).1 pair)
      exact same ▸ there
    · intro there
      exact ⟨(r.file, r), (shows r.file r).2 (Trees.memContents.2 ⟨rfl, there⟩), rfl⟩

theorem endsFindNames (follows : store.Follows view fails) {index : NameIndex} {s : σ} {trees : Trees}
    (h : KeyIndex.Holds index.names (view s) trees.contents) {name : String} (short : Short name) :
    (find store name).Ends (index, s)
      (fun found after => Finds trees name found ∧ KeyIndex.Holds after.1.names (view after.2) trees.contents ∧
        after.1.trees = index.trees ∧ view after.2 = view s)
      fun after => fails ∧ KeyIndex.Holds after.1.names (view after.2) trees.contents ∧
        after.1.trees = index.trees ∧ view after.2 = view s := by
  unfold find get
  refine endsBind (endsOnNames ((h.tells.endsGet follows (readsBackText short)).weaken ?_ ?_))
  · intro c ⟨names, s'⟩ ⟨shows, _, reads⟩
    exact endsPure ⟨findsSorted shows, reads.holds h, rfl, reads.store⟩
  · intro ⟨names, s'⟩ ⟨may, reads⟩
    exact ⟨may, reads.holds h, rfl, reads.store⟩

theorem endsFind (follows : store.Follows view fails) {index : NameIndex} {s : σ} {trees : Trees}
    (h : HoldsBy copies index (view s) trees) {name : String} (short : Short name) :
    (find store name).Ends (index, s)
      (fun found after => Finds trees name found ∧ HoldsBy copies after.1 (view after.2) trees ∧
        after.1.trees = index.trees)
      fun after => fails ∧ HoldsBy copies after.1 (view after.2) trees := by
  refine (endsFindNames follows h.names short).weaken ?_ ?_
  · intro found after ⟨finds, names, cache, same⟩
    exact ⟨finds, ⟨names, same ▸ h.stored, cache ▸ h.cached, h.fit⟩, cache⟩
  · intro after ⟨may, names, cache, same⟩
    exact ⟨may, names, same ▸ h.stored, cache ▸ h.cached, h.fit⟩

/- The tree that is found for a file: the one in the cache, else what the stored bytes decode to. -/
def Given (index : NameIndex) (trees : Trees) (file : FileId) (found : Option Tree) : Prop :=
  match index.trees.find? file, trees file with
  | some copy, _ => found = some copy
  | none, none => found = none
  | none, some t => ∃ copy, found = some copy ∧ copy.nodes.toList = t.preorder.map t.restored

theorem givenUnique {index index' : NameIndex} {trees trees' : Trees} {file : FileId} {found found' : Option Tree}
    (given : Given index trees file found) (given' : Given index' trees' file found')
    (cache : index'.trees.find? file = index.trees.find? file) (same : trees' file = trees file) : found' = found := by
  unfold Given at given given'
  rw [cache, same] at given'
  cases cached : index.trees.find? file with
  | some copy =>
    rw [cached] at given given'
    exact given'.trans given.symm
  | none =>
    rw [cached] at given given'
    cases known : trees file with
    | none =>
      rw [known] at given given'
      exact given'.trans given.symm
    | some t =>
      rw [known] at given given'
      obtain ⟨copy, rfl, nodes⟩ := given
      obtain ⟨copy', rfl, nodes'⟩ := given'
      rw [Tree.sameNodeList (nodes'.trans nodes.symm)]

theorem HasTrees.givenRel {index : NameIndex} {entries : Entries} {trees : Trees}
    (h : HasTrees copies index entries trees) (decoded : copies.Decoded trees) {file : FileId}
    {found : Option Tree} (given : Given index trees file found) :
    Option.Rel (copies file) (trees file) found := by
  unfold Given at given
  cases cached : index.trees.find? file with
  | some copy =>
    obtain ⟨t, known, is⟩ := h.cached file copy cached
    rw [cached] at given
    rw [given, known]
    exact .some is
  | none =>
    rw [cached] at given
    cases known : trees file with
    | none =>
      rw [known] at given
      rw [given]
      exact .none
    | some t =>
      rw [known] at given
      obtain ⟨copy, same, nodes⟩ := given
      rw [same]
      exact .some (decoded file t copy known nodes)

structure Browses (view : σ → Entries) (copies : Copies) (before after : NameIndex × σ) (trees : Trees) : Prop where
  names : after.1.names = before.1.names
  store : view after.2 = view before.2
  has : HasTrees copies after.1 (view after.2) trees

theorem HoldsBy.browsed {before after : NameIndex × σ} {trees : Trees} (h : HoldsBy copies before.1 (view before.2) trees)
    (b : Browses view copies' before after trees) : HoldsBy copies' after.1 (view after.2) trees := by
  refine ⟨?_, b.has.stored, b.has.cached, b.has.fit⟩
  rw [b.names, b.store]
  exact h.names

theorem HasTrees.endsTree (follows : store.Follows view fails) {index : NameIndex} {s : σ} {trees : Trees}
    (h : HasTrees copies index (view s) trees) (decoded : copies.Decoded trees) (file : FileId) :
    (tree store file).Ends (index, s)
      (fun found after => Given index trees file found ∧ Browses view copies (index, s) after trees)
      fun after => fails ∧ Browses view copies (index, s) after trees := by
  have has := h.used file
  have first := index.trees.getFound file
  unfold tree
  refine endsBind (endsNow ?_)
  rcases got : index.trees.get file with ⟨cached?, cache⟩
  rw [got] at first has
  dsimp only at first has ⊢
  refine endsBind (endsChange ?_)
  cases cached? with
  | some copy =>
    refine endsPure ⟨?_, rfl, rfl, has⟩
    unfold Given
    rw [← first]
  | none =>
    refine endsBind (endsOnStore ((follows.get _ s).weaken ?_ fun s' ⟨may, same⟩ => ⟨may, rfl, same, same.symm ▸ has⟩))
    intro bytes? s' ⟨same, found⟩
    rw [h.stored] at found
    rw [← same] at has
    cases known : trees file with
    | none =>
      rw [known] at found
      subst found
      refine endsPure ⟨?_, rfl, same, has⟩
      unfold Given
      rw [← first, known]
    | some t =>
      rw [known] at found
      subst found
      refine endsBind (endsNow ?_)
      obtain ⟨copy, table, reads, nodes⟩ := Tree.decodeEncoded (h.fit file t known).storable index.table
      dsimp only [Option.map_some]
      rw [reads]
      refine endsBind (endsChange (endsBind (endsChange (endsPure ⟨?_, rfl, same, ?_⟩))))
      · unfold Given
        rw [← first, known]
        exact ⟨copy, rfl, nodes⟩
      · exact has.remembered known (decoded file t copy known nodes) table

theorem HasTrees.endsResolve (follows : store.Follows view fails) {index : NameIndex} {s : σ} {trees : Trees}
    (h : HasTrees copies index (view s) trees) (decoded : copies.Decoded trees) (reference : Reference) :
    (resolve store reference).Ends (index, s)
      (fun found after => (∃ tree?, Given index trees reference.file tree? ∧ found = tree?.bind fun tree =>
        if tree.contains reference.node then some ⟨tree, reference.node⟩ else none) ∧
        Browses view copies (index, s) after trees)
      fun after => fails ∧ Browses view copies (index, s) after trees := by
  unfold resolve
  refine endsBind ((h.endsTree follows decoded reference.file).weaken ?_ fun _ => id)
  intro found after ⟨given, browses⟩
  cases found with
  | none => exact endsPure ⟨⟨none, given, rfl⟩, browses⟩
  | some tree => exact endsPure ⟨⟨some tree, given, rfl⟩, browses⟩

theorem boundNode {tree? : Option Tree} {node : NodeId} {d : Resolved}
    (bound : some d = tree?.bind fun tree => if tree.contains node then some ⟨tree, node⟩ else none) :
    d.node = node := by
  obtain ⟨tree, -, bound⟩ := Option.bind_eq_some_iff.1 bound.symm
  split at bound
  · cases bound
    rfl
  · cases bound

theorem HasTrees.endsSetDefault (follows : store.Follows view fails) {index : NameIndex} {s : σ} {trees : Trees}
    (h : HasTrees copies index (view s) trees) (decoded : copies.Decoded trees) (reference : Reference)
    (text : String) (kept : ∀ f t copy, copies f t copy → copies' f t copy)
    (changed : ∀ t copy, copies reference.file t copy →
      copies' reference.file t (copy.setDefault reference.node text)) :
    (setDefault store reference text).Ends (index, s)
      (fun _ after => Browses view copies' (index, s) after trees)
      fun after => fails ∧ Browses view copies' (index, s) after trees := by
  unfold setDefault
  have wider : ∀ after, Browses view copies (index, s) after trees → Browses view copies' (index, s) after trees :=
    fun _ b => ⟨b.names, b.store, b.has.mono kept⟩
  refine endsBind ((h.endsResolve follows decoded reference).weaken ?_ fun after no => ⟨no.1, wider after no.2⟩)
  intro found ⟨index', s'⟩ ⟨⟨tree?, _, bound⟩, browses⟩
  cases found with
  | none => exact endsPure (wider _ browses)
  | some d =>
    have node := boundNode bound
    dsimp only
    split
    · exact endsPure (wider _ browses)
    · have has := browses.has
      refine endsBind (endsChange (endsPure ⟨browses.names, browses.store, has.stored, fun f copy there => ?_, has.fit⟩))
      rw [LruCache.findAdjust] at there
      by_cases here : f = reference.file
      · subst here
        rw [if_pos rfl, Option.map_eq_some_iff] at there
        obtain ⟨copy', there, same⟩ := there
        obtain ⟨t, known, is⟩ := has.cached reference.file copy' there
        rw [← same, node]
        exact ⟨t, known, changed t copy' is⟩
      · rw [if_neg here] at there
        exact (has.mono kept).cached f copy there

/-! The same of an index that holds the trees with their names. -/

theorem endsTree (follows : store.Follows view fails) {index : NameIndex} {s : σ} {trees : Trees}
    (h : HoldsBy copies index (view s) trees) (decoded : copies.Decoded trees) (file : FileId) :
    (tree store file).Ends (index, s)
      (fun found after => Given index trees file found ∧ HoldsBy copies after.1 (view after.2) trees)
      fun after => fails ∧ HoldsBy copies after.1 (view after.2) trees :=
  (h.has.endsTree follows decoded file).weaken (fun _ _ told => ⟨told.1, h.browsed told.2⟩)
    fun _ no => ⟨no.1, h.browsed no.2⟩

theorem endsResolve (follows : store.Follows view fails) {index : NameIndex} {s : σ} {trees : Trees}
    (h : HoldsBy copies index (view s) trees) (decoded : copies.Decoded trees) (reference : Reference) :
    (resolve store reference).Ends (index, s)
      (fun found after => (∃ tree?, Given index trees reference.file tree? ∧ found = tree?.bind fun tree =>
        if tree.contains reference.node then some ⟨tree, reference.node⟩ else none) ∧
        HoldsBy copies after.1 (view after.2) trees)
      fun after => fails ∧ HoldsBy copies after.1 (view after.2) trees :=
  (h.has.endsResolve follows decoded reference).weaken (fun _ _ told => ⟨told.1, h.browsed told.2⟩)
    fun _ no => ⟨no.1, h.browsed no.2⟩

theorem endsSetDefault (follows : store.Follows view fails) {index : NameIndex} {s : σ} {trees : Trees}
    (h : HoldsBy copies index (view s) trees) (decoded : copies.Decoded trees) (reference : Reference)
    (text : String) (kept : ∀ f t copy, copies f t copy → copies' f t copy)
    (changed : ∀ t copy, copies reference.file t copy →
      copies' reference.file t (copy.setDefault reference.node text)) :
    (setDefault store reference text).Ends (index, s)
      (fun _ after => HoldsBy copies' after.1 (view after.2) trees)
      fun after => fails ∧ HoldsBy copies' after.1 (view after.2) trees :=
  (h.has.endsSetDefault follows decoded reference text kept changed).weaken (fun _ _ => h.browsed)
    fun _ no => ⟨no.1, h.browsed no.2⟩

theorem cachedPut {cache cache' : LruCache FileId Tree} {trees : Trees} {file : FileId} {tree? : Option Tree}
    (cached : ∀ f copy, cache.find? f = some copy → ∃ t, trees f = some t ∧ copies f t copy)
    (itself : ∀ t ∈ tree?, copies' file t t)
    (others : ∀ f t copy, f ≠ file → copies f t copy → copies' f t copy)
    (new : ∀ f copy, cache'.find? f = some copy →
      (if f = file then tree? else cache.find? f) = some copy) (f : FileId) (copy : Tree)
    (found : cache'.find? f = some copy) : ∃ t, (trees.put file tree?) f = some t ∧ copies' f t copy := by
  have found := new f copy found
  unfold Trees.put
  by_cases here : f = file
  · rw [if_pos here] at found ⊢
    exact ⟨copy, found, here ▸ itself copy found⟩
  · rw [if_neg here] at found ⊢
    obtain ⟨t, known, is⟩ := cached f copy found
    exact ⟨t, known, others f t copy here is⟩

theorem HasTrees.put {index index' : NameIndex} {entries entries' : Entries} {trees : Trees}
    (h : HasTrees copies index entries trees) {file : FileId} {tree? : Option Tree}
    (written : entries' = entries.assign (treeKey file) (tree?.map (·.encode))) (fits : ∀ t ∈ tree?, t.Fits)
    (itself : ∀ t ∈ tree?, copies' file t t) (others : ∀ f t copy, f ≠ file → copies f t copy → copies' f t copy)
    (new : ∀ f copy, index'.trees.find? f = some copy →
      (if f = file then tree? else index.trees.find? f) = some copy) :
    HasTrees copies' index' entries' (trees.put file tree?) where
  stored f := written ▸ storedPut h.stored file tree? f
  cached := cachedPut h.cached itself others new
  fit := h.fit.put file fits

theorem foundErased {cache : LruCache FileId Tree} {file f : FileId} {copy : Tree}
    (found : (cache.erase file).2.find? f = some copy) : f ≠ file ∧ cache.find? f = some copy := by
  rw [LruCache.findErase] at found
  split at found
  · cases found
  · next other => exact ⟨other, found⟩

theorem HasTrees.erased {index : NameIndex} {entries : Entries} {trees : Trees} (h : HasTrees copies index entries trees)
    (file : FileId) : HasTrees copies { index with trees := (index.trees.erase file).2 } entries trees :=
  ⟨h.stored, fun f copy found => h.cached f copy (foundErased found).2, h.fit⟩

theorem HasTrees.placed {index : NameIndex} {entries entries' : Entries} {trees : Trees}
    (h : HasTrees copies index entries trees) {file : FileId} {tree? : Option Tree}
    (written : entries' = entries.assign (treeKey file) (tree?.map (·.encode))) (fits : ∀ t ∈ tree?, t.Fits)
    (apart : index.trees.find? file = none) : HasTrees copies index entries' (trees.put file tree?) := by
  refine ⟨fun f => written ▸ storedPut h.stored file tree? f, fun f copy found => ?_, h.fit.put file fits⟩
  have other : f ≠ file := by
    rintro rfl
    rw [apart] at found
    cases found
  obtain ⟨t, known, is⟩ := h.cached f copy found
  exact ⟨t, (if_neg other).trans known, is⟩

theorem foundReplaced {cache : LruCache FileId Tree} {file : FileId} {t : Tree} (f : FileId) (copy : Tree)
    (found : (((cache.erase file).2).insert file t).find? f = some copy) :
    (if f = file then some t else cache.find? f) = some copy := by
  have found := LruCache.findInsert found
  rw [LruCache.findErase] at found
  by_cases here : f = file
  · rw [if_pos here] at found ⊢
    exact found
  · rw [if_neg here] at found ⊢
    rwa [if_neg here] at found

theorem endsRestoring (follows : store.Follows view fails) (key : Bytes) (old? : Option Bytes) (s : σ) :
    (restore store key old?).Ends s (fun _ s' => view s' = (view s).assign key old?)
      fun s' => fails ∧ view s' = view s := by
  cases old? with
  | none => exact follows.remove key s
  | some old => exact follows.put key old s

theorem endsIndexFile (follows : store.Follows view False) {index : NameIndex} {s : σ} {trees : Trees}
    (h : HoldsBy copies index (view s) trees) (file : FileId) {t : Tree} (fits : t.Fits)
    (itself : copies' file t t) (others : ∀ f t copy, f ≠ file → copies f t copy → copies' f t copy) :
    (indexFile store file t).Ends (index, s)
      (fun _ after => HoldsBy copies' after.1 (view after.2) (trees.put file (some t)))
      fun _ => False := by
  unfold indexFile
  refine endsBind (endsOnStore ((follows.get _ s).weaken ?_ fun _ no => no.1))
  intro previous? s' ⟨same, _⟩
  refine endsBind (endsChange (endsBind (endsOnStore ((follows.put _ _ s').weaken ?_ fun _ no => no.1))))
  intro _ s'' put
  rw [same] at put
  have written : view s'' = (view s).assign (treeKey file) ((some t).map (·.encode)) := put
  have names := namesElsewhere h.names file ((some t).map (·.encode))
  rw [← written] at names
  refine endsBind (endsTry (endsOnNames ((names.tells.endsUpdate follows file
    (Trees.entriesCoded fits)).weaken ?_ fun _ no => no.1.elim)))
  intro _ ⟨names', last⟩ r
  have own : ∀ t' ∈ some t, t' = t := fun _ same => (Option.some.inj same).symm
  have has : HasTrees copies' { index with trees := (index.trees.erase file).2.insert file t } (view last)
      (trees.put file (some t)) :=
    h.has.put (r.store.trans written) (fun _ mem => own _ mem ▸ fits) (fun _ mem => own _ mem ▸ itself) others foundReplaced
  refine endsChange ⟨?_, has.stored, has.cached, has.fit⟩
  rw [Trees.contentsPut]
  exact r.holds names

theorem endsRemoveFile (follows : store.Follows view False) {index : NameIndex} {s : σ} {trees : Trees}
    (h : HoldsBy copies index (view s) trees) (file : FileId) :
    (removeFile store file).Ends (index, s)
      (fun _ after => HoldsBy copies after.1 (view after.2) (trees.put file none))
      fun _ => False := by
  unfold removeFile
  refine endsBind (endsChange (endsBind (endsOnStore ((follows.remove _ s).weaken ?_ fun _ no => no.1))))
  intro _ s' removed
  have written : view s' = (view s).assign (treeKey file) ((none : Option Tree).map (·.encode)) := removed
  have names := namesElsewhere h.names file ((none : Option Tree).map (·.encode))
  rw [← written] at names
  refine endsOnNames ((KeyIndex.endsRemoveFile follows names file).weaken ?_ fun _ no => no.1)
  intro had ⟨names', s''⟩ ⟨r, _⟩
  have has := (h.has.erased file).placed (r.store.trans written) nofun (index.trees.findErased file)
  refine ⟨?_, has.stored, has.cached, has.fit⟩
  rw [Trees.contentsPut]
  exact r.holds names

theorem endsFlush (follows : store.Follows view False) {index : NameIndex} {s : σ} {trees : Trees}
    (h : HoldsBy copies index (view s) trees) : (flush store).Ends (index, s)
      (fun _ after => HoldsBy copies after.1 (view after.2) trees ∧ Stored index.names.version (view after.2) trees ∧
        after.1.names.version = index.names.version)
      fun _ => False := by
  unfold flush
  refine endsOnNames ((KeyIndex.endsFlush follows h.names h.fit.contents).weaken ?_ fun _ no => no.1)
  intro _ ⟨names, s'⟩ ⟨writes, stored⟩
  have places := storedBeside h.stored writes.beside
  exact ⟨⟨writes.holds h.names, places, h.cached, h.fit⟩, ⟨stored, places, h.fit⟩, writes.version⟩

theorem Stored.opened {version : UInt32} {entries : Entries} {trees : Trees}
    (h : Stored version entries trees) (capacity : Nat) (table : NameTable) :
    HoldsBy copies ⟨.empty version, .empty capacity, table⟩ entries trees :=
  ⟨h.names, h.stored, fun _ _ found => by simp [LruCache.findEmpty] at found, h.fit⟩

theorem freshStored (version : UInt32) :
    Stored version (Entries.empty.insert KeyIndex.versionKey (KeyIndex.stamp version)) .none := by
  refine ⟨?_, fun file => ?_, Trees.fitNone⟩
  · rw [Trees.contentsNone]
    exact KeyIndex.freshStored version
  · rw [Entries.getInsert, if_neg (by simp [treeKey, treeFamily, KeyIndex.versionKey])]
    rfl

theorem endsClear (follows : store.Follows view False) {index : NameIndex} {s : σ} :
    (clear store).Ends (index, s)
      (fun _ after => HoldsBy copies after.1 (view after.2) .none)
      fun _ => False := by
  unfold clear
  refine endsBind (endsChange (endsOnNames ((KeyIndex.endsClear follows _ s).weaken ?_ fun _ no => no.1)))
  intro _ ⟨names, s'⟩ ⟨same, written⟩
  cases same
  have fresh := freshStored index.names.version
  rw [← written] at fresh
  refine ⟨fresh.names, fresh.stored, fun f copy found => ?_, fresh.fit⟩
  simp [LruCache.findClear] at found

structure Opened (version : UInt32) (capacity : Nat) (before after : Entries) (index : NameIndex) : Prop where
  blank : ∃ table, index = ⟨.empty version, .empty capacity, table⟩
  stamped : after = if before.get? KeyIndex.versionKey = some (KeyIndex.stamp version) then before
    else Entries.empty.insert KeyIndex.versionKey (KeyIndex.stamp version)

theorem endsOpening (follows : store.Follows view fails) (version : UInt32) (s : σ) (capacity : Nat) :
    (openOn store version capacity).Ends s
      (fun index s' => Opened version capacity (view s) (view s') index)
      fun s' => fails ∧ (view s' = view s ∨ view s' = .empty) := by
  unfold openOn
  refine endsBind ((KeyIndex.endsOpen follows version s).weaken ?_ fun _ => id)
  intro names s' ⟨same, told⟩
  subst same
  exact endsPure ⟨⟨.empty, rfl⟩, told⟩

theorem endsOpenNames (follows : store.Follows view False) (version : UInt32) (s : σ) (capacity : Nat) :
    (openOn store version capacity).Ends s
      (fun index s' => Opened version capacity (view s) (view s') index) fun _ => False :=
  (endsOpening follows version s capacity).weaken (fun _ _ => id) fun _ no => no.1

theorem endsOpen (follows : store.Follows view False) {version : UInt32} {s : σ} {trees : Trees}
    (h : Stored version (view s) trees) (capacity : Nat) : (openOn store version capacity).Ends s
      (fun index s' => HoldsBy copies index (view s') trees ∧ index.trees = .empty capacity) fun _ => False := by
  refine (endsOpenNames follows version s capacity).weaken ?_ fun _ => id
  intro index s' ⟨⟨table, same⟩, told⟩
  subst same
  have stamped : (view s).get? KeyIndex.versionKey = some (KeyIndex.stamp version) := h.names.stamped
  rw [if_pos stamped] at told
  rw [told]
  exact ⟨h.opened capacity table, rfl⟩

theorem endsOpenEmpty (follows : store.Follows view False) (version : UInt32) {s : σ}
    (empty : view s = .empty) (capacity : Nat) : (openOn store version capacity).Ends s
      (fun index s' => HoldsBy copies index (view s') .none) fun _ => False := by
  refine (endsOpenNames follows version s capacity).weaken ?_ fun _ => id
  intro index s' ⟨⟨table, same⟩, told⟩
  subst same
  rw [empty, if_neg (by simp [Entries.getEmpty])] at told
  rw [told]
  exact (freshStored version).opened capacity table

def openAndRun (store : Store σ) (version : UInt32) (capacity : Nat) (call : Call σ Unit) :
    ExceptT Fault (StateM σ) NameIndex := fun s =>
  match openOn store version capacity s with
  | (.error e, s) => (.error (.storage e), s)
  | (.ok index, s) =>
    match call (index, s) with
    | (.error fault, _, s) => (.error fault, s)
    | (.ok _, index, s) => (.ok index, s)

theorem endsOpenAndRun (follows : store.Follows view False) (version : UInt32) (capacity : Nat)
    {call : Call σ Unit} {s : σ} (empty : view s = .empty) {done : NameIndex × σ → Prop}
    (run : ∀ index s', HoldsBy copies index (view s') .none →
      call.Ends (index, s') (fun _ after => done after) fun _ => False) :
    ∃ index s', openAndRun store version capacity call s = (.ok index, s') ∧ done (index, s') := by
  obtain ⟨index, s', opened, holds⟩ := (endsOpenEmpty follows version empty capacity).succeeds
  obtain ⟨_, ⟨index', s''⟩, performed, told⟩ := (run index s' holds).succeeds
  refine ⟨index', s'', ?_, told⟩
  unfold openAndRun
  rw [opened]
  dsimp only
  rw [performed]

end NameIndex
end SymbolCatalog
