import SymbolCatalog.Proofs.NameIndex.Calls

/-! A reference that is found by a name keeps the id which the node had in the tree that was given.
A tree that was written and read has its nodes numbered in depth-first order, so such a reference
may then stand for another node. -/
namespace SymbolCatalog.NameIndex
open ExceptT
variable {σ : Type}

inductive Op where
  | indexFile (file : FileId) (t : Tree)
  | removeFile (file : FileId)
  | find (name : String)
  | tree (file : FileId)
  | resolve (reference : Reference)
  | flush
  | clear
  | reopen (capacity : Nat)

def Op.Fits : Op → Prop
  | .indexFile _ t => t.Fits
  | .find name => Short name
  | _ => True

def perform (store : Store σ) : Op → Call σ Unit
  | .indexFile file t => indexFile store file t
  | .removeFile file => do let _ ← removeFile store file
  | .find name => do let _ ← find store name
  | .tree file => do let _ ← NameIndex.tree store file
  | .resolve reference => do let _ ← NameIndex.resolve store reference
  | .flush => flush store
  | .clear => clear store
  | .reopen capacity => do
    flush store
    let version := (← now).names.version
    let index ← onStore (openOn store version capacity)
    change fun _ => index

def session (store : Store σ) (version : UInt32) (capacity : Nat) (ops : List Op) :
    ExceptT Fault (StateM σ) NameIndex := fun s =>
  match openOn store version capacity s with
  | (.error e, s) => (.error (.storage e), s)
  | (.ok index, s) =>
    match ops.forM (perform store) (index, s) with
    | (.error fault, _, s) => (.error fault, s)
    | (.ok _, index, s) => (.ok index, s)

def treesAfter (trees : Trees) : Op → Trees
  | .indexFile file t => trees.put file (some t)
  | .removeFile file => trees.put file none
  | .clear => .none
  | _ => trees

def indexed (ops : List Op) : Trees := ops.foldl treesAfter .none

def Resolves (store : Store σ) (state : NameIndex × σ) : Prop :=
  ∀ name, Short name → (find store name).Ends state
    (fun found after => ∀ r ∈ found, (resolve store r).Ends after
      (fun answer _ => ∃ d kind, answer = some d ∧ d.name? = some name ∧ d.kind? = some kind ∧
        kind ∈ [.classDecl, .field, .method, .annotationMethod])
      fun _ => False)
    fun _ => False

variable {store : Store σ} {view : σ → Entries} {copies copies' : Copies}

/- What may be a copy before an operation may be one after it, except that a file which is indexed
has just the tree that was given. -/
structure Op.Carries (op : Op) (copies copies' : Copies) : Prop where
  itself : ∀ file t, op = .indexFile file t → copies' file t t
  others : ∀ f t copy, (∀ t', op ≠ .indexFile f t') → copies f t copy → copies' f t copy

theorem Op.carriesCopy (op : Op) : op.Carries (fun _ => Copy) fun _ => Copy :=
  ⟨fun _ _ _ => .inl rfl, fun _ _ _ _ => id⟩

theorem endsReopen (follows : store.Follows view False) {index : NameIndex} {s : σ} {trees : Trees}
    (h : HoldsBy copies index (view s) trees) (capacity : Nat) :
    (perform store (.reopen capacity)).Ends (index, s)
      (fun _ after => HoldsBy copies after.1 (view after.2) trees ∧ after.1.trees = .empty capacity)
      fun _ => False := by
  refine endsBind ((endsFlush follows h).weaken ?_ fun _ => id)
  intro _ ⟨index', s'⟩ ⟨_, stored, version⟩
  refine endsBind (endsNow (endsBind (endsOnStore ?_)))
  rw [version]
  exact (endsOpen follows stored capacity).weaken (fun _ _ done => endsChange done) fun _ => id

theorem endsPerform (follows : store.Follows view False) {index : NameIndex} {s : σ} {trees : Trees}
    (h : HoldsBy copies index (view s) trees) (decoded : copies.Decoded trees) {op : Op} (fits : op.Fits)
    (carries : op.Carries copies copies') :
    (perform store op).Ends (index, s)
      (fun _ after => HoldsBy copies' after.1 (view after.2) (treesAfter trees op)) fun _ => False := by
  by_cases indexes : ∃ file t, op = .indexFile file t
  · obtain ⟨file, t, same⟩ := indexes
    subst same
    refine endsIndexFile follows h file fits (carries.itself file t rfl) fun f t' copy other => ?_
    exact carries.others f t' copy fun t'' same => other (by cases same; rfl)
  have all : ∀ f t copy, copies f t copy → copies' f t copy := fun f t copy =>
    carries.others f t copy fun t' same => indexes ⟨f, t', same⟩
  have h := h.mono all
  have decoded : copies'.Decoded trees := fun f t copy known nodes => all f t copy (decoded f t copy known nodes)
  cases op with
  | indexFile file t => exact absurd ⟨file, t, rfl⟩ indexes
  | removeFile file =>
    exact endsBind ((endsRemoveFile follows h file).weaken (fun _ _ done => endsPure done) fun _ => id)
  | find name =>
    exact endsBind ((endsFind follows h fits).weaken (fun _ _ done => endsPure done.2.1) fun _ no => no.1)
  | tree file =>
    exact endsBind ((endsTree follows h decoded file).weaken (fun _ _ done => endsPure done.2) fun _ no => no.1)
  | resolve r =>
    exact endsBind ((endsResolve follows h decoded r).weaken (fun _ _ done => endsPure done.2) fun _ no => no.1)
  | flush => exact (endsFlush follows h).weaken (fun _ _ done => done.1) fun _ => id
  | clear => exact endsClear follows
  | reopen capacity => exact (endsReopen follows h capacity).weaken (fun _ _ done => done.1) fun _ => id

theorem endsPerformAll (follows : store.Follows view False) {ops : List Op} (fits : ∀ op ∈ ops, op.Fits)
    {index : NameIndex} {s : σ} {trees : Trees} (h : Holds index (view s) trees) :
    (ops.forM (perform store)).Ends (index, s)
      (fun _ after => Holds after.1 (view after.2) (ops.foldl treesAfter trees)) fun _ => False := by
  induction ops generalizing index s trees with
  | nil => exact endsPure h
  | cons op ops ih =>
    refine endsBind ((endsPerform follows h (copyDecoded trees) (fits op (.head _)) op.carriesCopy).weaken ?_
      fun _ => id)
    intro _ after holds
    exact ih (fun op mem => fits op (.tail _ mem)) holds

theorem endsSession (follows : store.Follows view False) (version : UInt32) (capacity : Nat) (ops : List Op)
    {s : σ} (empty : view s = .empty) (done : NameIndex × σ → Prop)
    (run : ∀ index s', Holds index (view s') .none →
      (ops.forM (perform store)).Ends (index, s') (fun _ after => done after) fun _ => False) :
    ∃ index s', session store version capacity ops s = (.ok index, s') ∧ done (index, s') :=
  endsOpenAndRun follows version capacity empty run

theorem resolvedDeclares {d : Resolved} {name : String} :
    (∃ kind, d.name? = some name ∧ d.kind? = some kind ∧
      kind ∈ [.classDecl, .field, .method, .annotationMethod]) ↔ d.tree.Declares name d.node := by
  unfold Resolved.name? Resolved.kind? Resolved.payload? Tree.kind? Tree.Declares
  cases d.tree.payload? d.node with
  | none => simp
  | some payload =>
    simp only [Kind.indexedAmong]
    simp [and_comm]

theorem givenCopy {index : NameIndex} {entries : Entries} {trees : Trees} (h : Holds index entries trees)
    {file : FileId} {t : Tree} (known : trees file = some t) {found : Option Tree}
    (given : Given index trees file found) :
    ∃ copy, found = some copy ∧ (index.trees.find? file = some t ∧ copy = t ∨
      index.trees.find? file ≠ some t ∧ copy.nodes.toList = t.preorder.map t.restored) := by
  unfold Given at given
  cases cached : index.trees.find? file with
  | some copy =>
    rw [cached] at given
    obtain ⟨t', same, is⟩ := h.cached file copy cached
    rw [known] at same
    cases same
    refine ⟨copy, given, ?_⟩
    by_cases same : copy = t
    · exact .inl ⟨congrArg some same, same⟩
    · exact .inr ⟨fun e => same (Option.some.inj e), is.resolve_left same⟩
  | none =>
    rw [cached, known] at given
    obtain ⟨copy, same, nodes⟩ := given
    exact ⟨copy, same, .inr ⟨nofun, nodes⟩⟩

theorem boundDeclares {copy : Tree} {node : NodeId} {name : String} :
    (∃ d kind, ((some copy).bind fun tree => if tree.contains node then some (Resolved.mk tree node) else none) =
      some d ∧ d.name? = some name ∧ d.kind? = some kind ∧
      kind ∈ [.classDecl, .field, .method, .annotationMethod]) ↔ copy.Declares name node := by
  constructor
  · intro h
    obtain ⟨d, kind, same, right⟩ := h
    rw [Option.bind_some] at same
    split at same
    · cases same
      exact resolvedDeclares.1 ⟨kind, right⟩
    · cases same
  · intro h
    have inside : copy.contains node = true := decide_eq_true h.inTree
    obtain ⟨kind, right⟩ := (resolvedDeclares (d := ⟨copy, node⟩)).2 h
    exact ⟨⟨copy, node⟩, kind, by rw [Option.bind_some, if_pos inside], right⟩

theorem resolvesIff (follows : store.Follows view False) {index : NameIndex} {s : σ} {trees : Trees}
    (h : Holds index (view s) trees) : Resolves store (index, s) ↔
      ∀ file t, trees file = some t → index.trees.find? file = some t ∨ t.Steady := by
  constructor
  · intro resolves file t known
    by_cases cached : index.trees.find? file = some t
    · exact .inl cached
    · refine .inr fun name node declared => ?_
      have short := declared.short (h.fit file t known).storable
      obtain ⟨found, after, right, finds, holds, same⟩ := (resolves name short).meets (endsFind follows h short)
      have mem : (⟨file, node⟩ : Reference) ∈ found := (finds.complete ⟨file, node⟩).2 ⟨t, known, declared⟩
      obtain ⟨answer, _, good, ⟨tree?, given, bound⟩, -⟩ := (right _ mem).meets
        (endsResolve follows holds (copyDecoded trees) ⟨file, node⟩)
      obtain ⟨copy, there, ⟨cached', -⟩ | ⟨-, nodes⟩⟩ := givenCopy holds known given
      · rw [same] at cached'
        exact absurd cached' cached
      · rw [bound, there] at good
        exact (Tree.declaresDecoded nodes).1 (boundDeclares.1 good)
  · intro either name short
    refine (endsFind follows h short).weaken ?_ fun _ no => no.1
    intro found ⟨index', s'⟩ ⟨finds, holds, same⟩ r mem
    dsimp only at same
    obtain ⟨t, known, declared⟩ := (finds.complete r).1 mem
    refine (endsResolve follows holds (copyDecoded trees) r).weaken ?_ fun _ no => no.1
    intro answer after ⟨⟨tree?, given, bound⟩, _⟩
    obtain ⟨copy, there, ⟨-, same'⟩ | ⟨other, nodes⟩⟩ := givenCopy holds known given
    · rw [bound, there, same']
      exact boundDeclares.2 declared
    · rw [bound, there]
      rw [same] at other
      have steady := (either r.file t known).resolve_left other
      exact boundDeclares.2 ((Tree.declaresDecoded nodes).2 (steady name r.node declared))

/-- After every run of an index of names on a store that does not fail, every reference found by a
name resolves to a declaration of that name if and only if the tree of each indexed file is still in
the cache as it was given, or has its declarations at such ids that the node visited there in
depth-first order declares the same. -/
theorem foundResolvesExactly (follows : store.Follows view False) (version : UInt32) (capacity : Nat)
    (ops : List Op) (fits : ∀ op ∈ ops, op.Fits) (s : σ) (empty : view s = .empty) :
    ∃ index s', session store version capacity ops s = (.ok index, s') ∧
      (Resolves store (index, s') ↔
        ∀ file t, indexed ops file = some t → index.trees.find? file = some t ∨ t.Steady) := by
  obtain ⟨index, s', run, holds⟩ := endsSession follows version capacity ops empty _
    fun _ _ holds => endsPerformAll follows fits holds
  exact ⟨index, s', run, resolvesIff follows holds⟩

def sampleTree : Tree := (Tree.ofFile none).grown
  [(⟨0⟩, .classDecl "A" 0), (⟨0⟩, .classDecl "B" 0), (⟨1⟩, .field "x" (.ofName "int") 0 none)]

theorem sampleFits : sampleTree.Fits := ⟨Tree.storableAll (by decide +kernel), by decide⟩

def sampleRun : List Op :=
  [.indexFile ⟨1⟩ sampleTree, .find "x", .resolve ⟨⟨1⟩, ⟨3⟩⟩, .indexFile ⟨2⟩ sampleTree, .tree ⟨1⟩, .flush,
    .removeFile ⟨2⟩, .reopen 0]

theorem sampleResolvesExactly :
    (memoryStore.Follows id False ∧ (∀ op ∈ sampleRun, op.Fits) ∧ id Entries.empty = .empty) ∧
    ∃ index s', session memoryStore 1 8 sampleRun .empty = (.ok index, s') ∧
      (Resolves memoryStore (index, s') ↔
        ∀ file t, indexed sampleRun file = some t → index.trees.find? file = some t ∨ t.Steady) := by
  have short : Short "x" := by decide
  have fits : ∀ op ∈ sampleRun, op.Fits := by simp [sampleRun, Op.Fits, sampleFits, short]
  exact ⟨⟨memoryFollows, fits, rfl⟩, foundResolvesExactly memoryFollows 1 8 sampleRun fits .empty rfl⟩

theorem reopenedResolvesExactly (follows : store.Follows view False) (version : UInt32)
    (capacity capacity' : Nat) (ops : List Op) (fits : ∀ op ∈ ops, op.Fits) (s : σ)
    (empty : view s = .empty) :
    ∃ index s', session store version capacity (ops ++ [.reopen capacity']) s = (.ok index, s') ∧
      (Resolves store (index, s') ↔ ∀ file t, indexed ops file = some t → t.Steady) := by
  obtain ⟨index, s', run, holds, cache⟩ := endsSession follows version capacity (ops ++ [.reopen capacity'])
    empty (fun after => Holds after.1 (view after.2) (indexed ops) ∧ after.1.trees = .empty capacity')
    fun index s' holds => by
      rw [List.forM_eq_forM, List.forM_append]
      refine endsBind ((endsPerformAll follows fits holds).weaken ?_ fun _ => id)
      intro _ ⟨index', s''⟩ holds'
      exact endsBind ((endsReopen follows holds' capacity').weaken (fun _ _ done => endsPure done) fun _ => id)
  refine ⟨index, s', run, ?_⟩
  rw [resolvesIff follows holds]
  dsimp only at cache
  simp [cache, LruCache.findEmpty]

theorem sampleUnsteady : ¬ sampleTree.Steady := by
  intro steady
  have declared : sampleTree.Declares "x" ⟨3⟩ :=
    ⟨.field "x" (.ofName "int") 0 none, by decide +kernel, by decide, rfl⟩
  obtain ⟨other, ⟨payload, there, indexed, named⟩, place⟩ := steady "x" ⟨3⟩ declared
  have second : sampleTree.place ⟨2⟩ = ⟨3⟩ := by decide +kernel
  have same := Tree.placeInjective (Tree.payloadInTree there) (by decide +kernel) (place.trans second.symm)
  subst same
  have classB : sampleTree.payload? ⟨2⟩ = some (.classDecl "B" 0) := by decide +kernel
  rw [classB] at there
  cases there
  exact absurd named (by decide)

theorem reopenedFieldMissed : ∃ index s',
    session memoryStore 1 8 [.indexFile ⟨1⟩ sampleTree, .reopen 8] .empty = (.ok index, s') ∧
      ¬ Resolves memoryStore (index, s') := by
  have fits : ∀ op ∈ [Op.indexFile ⟨1⟩ sampleTree], op.Fits := by
    intro op mem
    cases List.mem_singleton.1 mem
    exact sampleFits
  obtain ⟨index, s', run, iff⟩ := reopenedResolvesExactly memoryFollows 1 8 8 _ fits .empty rfl
  refine ⟨index, s', run, fun resolves => ?_⟩
  exact sampleUnsteady (iff.1 resolves ⟨1⟩ sampleTree rfl)

end SymbolCatalog.NameIndex
