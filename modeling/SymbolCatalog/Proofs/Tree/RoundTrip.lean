import SymbolCatalog.Proofs.Tree.Decoding

/-! A tree that was written and read is the same tree with its nodes numbered in depth-first order. -/
namespace SymbolCatalog.Tree
variable {t t' : Tree}

/- The second tree has the nodes of the first under other ids, each with its parent, its children in
their order, its kind and all it carries. -/
structure Renumbers (rename : NodeId → NodeId) (t t' : Tree) : Prop where
  size : t'.size = t.size
  parent : ∀ id, id.index < t.size → t'.parent? (rename id) = (t.parent? id).map rename
  children : ∀ id, id.index < t.size → t'.children (rename id) = (t.children id).map rename
  kind : ∀ id, id.index < t.size → t'.kind? (rename id) = t.kind? id
  payload : ∀ id, id.index < t.size → t'.payload? (rename id) = t.payload? id

theorem nodeOutside {id : NodeId} (outside : t.size ≤ id.index) : t.node? id = none :=
  congrArg (Option.map Slot.toNode) (Array.getElem?_eq_none outside)

theorem sameSlots (size : t'.size = t.size)
    (same : ∀ id, id.index < t.size → t'.arena.slot? id = t.arena.slot? id) : t' = t := by
  have all : t'.arena = t.arena := by
    refine congrArg Arena.mk (Array.ext_getElem? fun i => ?_)
    by_cases inside : i < t.size
    · have position : (NodeId.ofIndex i).index = i := NodeId.index_ofIndex (Nat.lt_of_lt_of_le inside t.bounded)
      have here := same (.ofIndex i) (position.symm ▸ inside)
      unfold Arena.slot? at here
      rwa [position] at here
    · rw [Array.getElem?_eq_none (Nat.not_lt.1 inside),
        Array.getElem?_eq_none (show t'.size ≤ i from size ▸ Nat.not_lt.1 inside)]
  cases t'
  cases t
  cases all
  rfl

theorem slotTold {id : NodeId} (node : t'.node? id = t.node? id) (children : t'.children id = t.children id)
    (inside : id.index < t.size) : t'.arena.slot? id = t.arena.slot? id := by
  have there : t.arena.slot? id = some t.arena.slots[id.index] := Array.getElem?_eq_getElem inside
  unfold node? Arena.node? at node
  unfold Tree.children Arena.children at children
  rw [there] at node children ⊢
  rw [Option.map_some, Option.map_eq_some_iff] at node
  obtain ⟨slot, found, same⟩ := node
  rw [found] at children ⊢
  obtain ⟨own, ownChildren⟩ := slot
  obtain rfl : own = t.arena.slots[id.index].toNode := same
  obtain rfl : ownChildren = t.arena.slots[id.index].children := Array.toList_inj.1 children
  rfl

theorem sameNodes (size : t'.size = t.size) (same : ∀ id, id.index < t.size → t'.node? id = t.node? id) :
    t' = t := by
  refine sameSlots size fun id inside => ?_
  have node := same id inside
  have parents : ∀ x, t'.parent? x = t.parent? x := by
    intro x
    unfold parent?
    by_cases among : x.index < t.size
    · rw [same x among]
    · rw [nodeOutside (Nat.not_lt.1 among), nodeOutside (size ▸ Nat.not_lt.1 among)]
  have ids : t'.ids = t.ids := by rw [ids, ids, size]
  have children : t'.children id = t.children id := by
    rw [children_eq, children_eq, ids]
    simp only [parents]
  exact slotTold node children inside

theorem sameNodeList (same : t'.nodes.toList = t.nodes.toList) : t' = t := by
  have nodes : t'.nodes = t.nodes := Array.toList_inj.1 same
  refine sameNodes ?_ fun id _ => ?_
  · rw [← nodes_size, nodes, nodes_size]
  · rw [node?_eq, nodes, node?_eq]

theorem placeInjective {a b : NodeId} (ha : a.index < t.size) (hb : b.index < t.size)
    (same : t.place a = t.place b) : a = b := by
  have position := congrArg (·.index) same
  simp only [placeIndex ha, placeIndex hb] at position
  exact (List.idxOf_inj (memPreorder.2 ha)).1 position

theorem placeNth (t : Tree) (i : Nat) (h : i < t.preorder.length) : t.place t.preorder[i] = .ofIndex i := by
  unfold place
  rw [t.preorderNodup.idxOf_getElem]

theorem placeAll (t : Tree) : t.preorder.map t.place = t.ids := by
  refine List.ext_getElem (by rw [List.length_map, t.preorderPerm.length_eq]) fun i h h' => ?_
  rw [List.length_map] at h
  rw [List.getElem_map, placeNth t i h]
  simp [ids]

theorem placeInOrder {id : NodeId} (order : t.preorder = t.ids) (inside : id.index < t.size) :
    t.place id = id := by
  have here : id.index < t.preorder.length := by rwa [preorderLength]
  have nth : t.preorder[id.index] = id := by simp [order, ids]
  have place := placeNth t id.index here
  rwa [nth, NodeId.ofIndex_index] at place

section
variable (nodes : t'.nodes.toList = t.preorder.map t.restored)
include nodes

theorem sizeDecoded : t'.size = t.size := by
  rw [← nodes_size, ← Array.length_toList, nodes, List.length_map, preorderLength]

theorem idsDecoded : t'.ids = t.ids := by
  rw [ids, ids, sizeDecoded nodes]

theorem nodeDecoded {id : NodeId} (inside : id.index < t.size) :
    t'.node? (t.place id) = some (t.restored id) := by
  have there := memPreorder.2 inside
  rw [node?_eq, placeIndex inside, ← Array.getElem?_toList, nodes, List.getElem?_map,
    List.getElem?_eq_getElem (List.idxOf_lt_length_of_mem there), List.getElem_idxOf]
  rfl

theorem parentDecoded {id : NodeId} (inside : id.index < t.size) :
    t'.parent? (t.place id) = (t.parent? id).map t.place := by
  rw [parent?, nodeDecoded nodes inside]
  rfl

theorem payloadDecoded {id : NodeId} (inside : id.index < t.size) :
    t'.payload? (t.place id) = (t.payload? id).map (·.settled) := by
  rw [payload?, nodeDecoded nodes inside, payloadThere inside, restored, payloadThere inside]
  rfl

theorem kindDecoded {id : NodeId} (inside : id.index < t.size) :
    t'.kind? (t.place id) = t.kind? id := by
  rw [kind?, payloadDecoded nodes inside, kind?, payloadThere inside]
  exact congrArg some (Payload.kindSettled _)

theorem childrenDecoded {id : NodeId} (inside : id.index < t.size) :
    t'.children (t.place id) = (t.children id).map t.place := by
  have same : ∀ x ∈ t.preorder, decide (t'.parent? (t.place x) = some (t.place id)) =
      decide (t.parent? x = some id) := by
    intro x mem
    rw [parentDecoded nodes (memPreorder.1 mem), decide_eq_decide]
    cases up : t.parent? x with
    | none => simp
    | some parent =>
      simp only [Option.map_some, Option.some.injEq]
      constructor
      · exact placeInjective (parentInTree up) inside
      · exact congrArg _
  rw [children_eq, idsDecoded nodes, ← placeAll, List.filter_map, ← childrenInPreorder]
  exact congrArg _ (List.filter_congr same)

theorem subtreeDecoded {id : NodeId} (inside : id.index < t.size) :
    t'.preorderFrom (t.place id) = (t.preorderFrom id).map t.place := by
  induction id using t.descend with
  | step id ih =>
    rw [preorderFrom_eq, preorderFrom_eq t, childrenDecoded nodes inside, List.map_cons, List.flatMap_map,
      List.map_flatMap]
    have below : ∀ child ∈ t.children id, t'.preorderFrom (t.place child) =
        (t.preorderFrom child).map t.place := fun child mem => ih child mem (mem_children.1 mem).1
    exact congrArg _ (List.flatMap_congr below)

theorem preorderDecoded : t'.preorder = t'.ids := by
  have whole := subtreeDecoded nodes t.rootInTree
  rw [placeRoot] at whole
  rw [preorder, whole, idsDecoded nodes]
  exact t.placeAll

theorem sameDecoded (settled : ∀ id payload, t.payload? id = some payload → payload.settled = payload) :
    t' = t ↔ t.preorder = t.ids := by
  constructor
  · intro same
    have order := preorderDecoded nodes
    rwa [same] at order
  · intro order
    refine sameNodes (sizeDecoded nodes) fun id inside => ?_
    have node := nodeDecoded nodes inside
    rw [placeInOrder order inside] at node
    have parent : (t.parent? id).map t.place = t.parent? id := by
      cases up : t.parent? id with
      | none => rfl
      | some parent => exact congrArg some (placeInOrder order (parentInTree up))
    have payload := settled id _ (payloadThere inside)
    rw [node, restored, parent, payloadThere inside, nodeThere inside]
    exact congrArg (fun p => some (Node.mk _ p)) payload

end

/-- A tree of any shape that fits into memory reads back from its bytes, whatever names are known. The
node that depth-first order visits at a position gets this position as its id and keeps all it has;
the ids stay as they are exactly if they were in depth-first order before. -/
theorem encodedTreeDecodes (t : Tree) (storable : t.Storable)
    (arrays : ∀ id payload, t.payload? id = some payload → ∀ type ∈ payload.types, type.varargs → 0 < type.depth)
    (table : NameTable) :
    t.preorder.Perm t.ids ∧ (∀ i (h : i < t.preorder.length), t.place t.preorder[i] = .ofIndex i) ∧
    ∃ t' table', decode t.encode table = (.ok t', table') ∧ Renumbers t.place t t' ∧
      (t' = t ↔ t.preorder = t.ids) := by
  have settled : ∀ id payload, t.payload? id = some payload → payload.settled = payload :=
    fun id payload there => Payload.settledArrays (arrays id payload there)
  obtain ⟨t', table', run, nodes⟩ := decodeEncoded storable table
  refine ⟨t.preorderPerm, t.placeNth, t', table', run, ?_, sameDecoded nodes settled⟩
  refine ⟨sizeDecoded nodes, fun id => parentDecoded nodes, fun id => childrenDecoded nodes,
    fun id => kindDecoded nodes, fun id inside => ?_⟩
  rw [payloadDecoded nodes inside, payloadThere inside]
  exact congrArg some (settled id _ (payloadThere inside))

def grown (t : Tree) : List (NodeId × Payload) → Tree
  | [] => t
  | (parent, payload) :: rest =>
    match t.addChild parent payload with
    | .ok (_, t) => t.grown rest
    | .error _ => t

theorem payloadAmong {id : NodeId} {payload : Payload} (there : t.payload? id = some payload) :
    payload ∈ t.nodes.toList.map (·.payload) := by
  simp only [payload?, Option.map_eq_some_iff] at there
  obtain ⟨node, found, same⟩ := there
  rw [node?_eq] at found
  exact same ▸ List.mem_map_of_mem (Array.mem_toList_iff.2 (Array.mem_of_getElem? found))

theorem storableAll (texts : ∀ p ∈ t.nodes.toList.map (·.payload), SymbolCatalog.Storable p.texts) :
    t.Storable := fun _ payload there => texts payload (payloadAmong there)

def sampleTree : Tree := (ofFile (some "p")).grown
  [(⟨0⟩, .classDecl "A" 1), (⟨0⟩, .classDecl "B" 0), (⟨1⟩, .field "x" ⟨"int", 2, true, ["N"]⟩ 0 none),
    (⟨1⟩, .method ⟨some "m", ⟨4⟩, .ofName "int", some "1"⟩), (⟨4⟩, .modifierList 1 [⟨"N", true⟩]),
    (⟨4⟩, .parameterList), (⟨6⟩, .parameter none (.ofName "long")),
    (⟨4⟩, .throwsList [.ofName "E", ⟨"F", 1, false, []⟩])]

example : sampleTree.preorder.map sampleTree.place = sampleTree.ids ∧ sampleTree.place ⟨3⟩ = ⟨2⟩ := by
  decide +kernel

theorem sampleTreeDecodes :
    (sampleTree.Storable ∧ ∀ id payload, sampleTree.payload? id = some payload →
      ∀ type ∈ payload.types, type.varargs → 0 < type.depth) ∧
    sampleTree.preorder.Perm sampleTree.ids ∧
    (∀ i (h : i < sampleTree.preorder.length), sampleTree.place sampleTree.preorder[i] = .ofIndex i) ∧
    ∃ t' table', decode sampleTree.encode .empty = (.ok t', table') ∧
      Renumbers sampleTree.place sampleTree t' ∧ (t' = sampleTree ↔ sampleTree.preorder = sampleTree.ids) := by
  have storable : sampleTree.Storable := storableAll (by decide +kernel)
  have arrays : ∀ p ∈ sampleTree.nodes.toList.map (·.payload), ∀ type ∈ p.types,
      type.varargs → 0 < type.depth := by decide +kernel
  have arrays : ∀ id payload, sampleTree.payload? id = some payload → ∀ type ∈ payload.types,
      type.varargs → 0 < type.depth := fun id payload there => arrays payload (payloadAmong there)
  exact ⟨⟨storable, arrays⟩, encodedTreeDecodes sampleTree storable arrays .empty⟩

end SymbolCatalog.Tree
