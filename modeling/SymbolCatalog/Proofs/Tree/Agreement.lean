import SymbolCatalog.Proofs.Tree.Declarations

/-! When a tree that is found for a file agrees with the one that was given: the same nodes in
depth-first order under whatever ids, but for the default values of methods. -/
namespace SymbolCatalog

namespace Payload

theorem defaultTwice (p : Payload) (first second : String) :
    (p.withDefault first).withDefault second = p.withDefault second := by
  cases p <;> rfl

end Payload

namespace Tree
variable {t copy : Tree} {rename : NodeId → NodeId} {texts : List String}

def ArrayVarargs (t : Tree) : Prop :=
  ∀ id payload, t.payload? id = some payload → ∀ type ∈ payload.types, type.varargs → 0 < type.depth

theorem arraysAll (arrays : ∀ p ∈ t.nodes.toList.map (·.payload), ∀ type ∈ p.types, type.varargs → 0 < type.depth) :
    t.ArrayVarargs := fun _ payload there => arrays payload (payloadAmong there)

structure AgreesBy (rename : NodeId → NodeId) (texts : List String) (t copy : Tree) : Prop where
  order : copy.preorder = t.preorder.map rename
  parent : ∀ id ∈ t.preorder, copy.parent? (rename id) = (t.parent? id).map rename
  children : ∀ id ∈ t.preorder, copy.children (rename id) = (t.children id).map rename
  payload : ∀ id payload, t.payload? id = some payload → ∃ other, copy.payload? (rename id) = some other ∧
    (other = payload ∨ ∃ text ∈ texts, other = payload.withDefault text)

/- The nodes are the same but for their ids, and but for default values among the texts. -/
def Agrees (texts : List String) (t copy : Tree) : Prop := ∃ rename, AgreesBy rename texts t copy

theorem agreesSelf (texts : List String) (t : Tree) : Agrees texts t t := by
  refine ⟨id, t.preorder.map_id.symm, fun _ _ => ?_, fun _ _ => ?_, fun _ payload there => ?_⟩
  · exact (congrFun Option.map_id _).symm
  · exact (List.map_id _).symm
  · exact ⟨payload, there, .inl rfl⟩

theorem agreesDecoded (texts : List String) (arrays : t.ArrayVarargs)
    (nodes : copy.nodes.toList = t.preorder.map t.restored) : Agrees texts t copy := by
  refine ⟨t.place, ?_, fun id mem => ?_, fun id mem => ?_, fun id payload there => ?_⟩
  · rw [preorderDecoded nodes, idsDecoded nodes, placeAll]
  · exact parentDecoded nodes (memPreorder.1 mem)
  · exact childrenDecoded nodes (memPreorder.1 mem)
  · refine ⟨payload, ?_, .inl rfl⟩
    rw [payloadDecoded nodes (payloadInTree there), there]
    exact congrArg some (Payload.settledArrays (arrays id payload there))

theorem Agrees.among {texts' : List String} (h : Agrees texts t copy) (sub : texts ⊆ texts') :
    Agrees texts' t copy := by
  obtain ⟨rename, h⟩ := h
  refine ⟨rename, h.order, h.parent, h.children, fun id payload there => ?_⟩
  obtain ⟨other, found, same | ⟨text, mem, same⟩⟩ := h.payload id payload there
  · exact ⟨other, found, .inl same⟩
  · exact ⟨other, found, .inr ⟨text, sub mem, same⟩⟩

section
variable {f : NodeId → Payload → Payload}

theorem nodeMapped (t : Tree) (id : NodeId) :
    (t.mapPayload f).node? id = (t.node? id).map fun node => { node with payload := f id node.payload } := by
  unfold node? mapPayload Arena.mapPayload Arena.node? Arena.slot?
  rw [Array.getElem?_mapIdx, NodeId.ofIndex_index, Option.map_map, Option.map_map]
  rfl

theorem sizeMapped (t : Tree) : (t.mapPayload f).size = t.size := Array.size_mapIdx

theorem parentMapped (t : Tree) (id : NodeId) : (t.mapPayload f).parent? id = t.parent? id := by
  unfold parent?
  rw [nodeMapped]
  cases t.node? id <;> rfl

theorem payloadMapped (t : Tree) (id : NodeId) :
    (t.mapPayload f).payload? id = (t.payload? id).map (f id) := by
  unfold payload?
  rw [nodeMapped]
  cases t.node? id <;> rfl

theorem childrenMapped (t : Tree) (id : NodeId) : (t.mapPayload f).children id = t.children id := by
  rw [children_eq, children_eq]
  unfold ids
  rw [sizeMapped]
  simp only [parentMapped]

theorem preorderMapped (t : Tree) : (t.mapPayload f).preorder = t.preorder := by
  have subtree : ∀ id, (t.mapPayload f).preorderFrom id = t.preorderFrom id := by
    intro id
    induction id using t.descend with
    | step id ih =>
      rw [preorderFrom_eq, preorderFrom_eq t, childrenMapped]
      exact congrArg _ (List.flatMap_congr ih)
  exact subtree .root

end

theorem Agrees.setDefault (h : Agrees texts t copy) (node : NodeId) (text : String) :
    Agrees (text :: texts) t (copy.setDefault node text) := by
  obtain ⟨rename, h⟩ := h
  refine ⟨rename, ?_, fun id mem => ?_, fun id mem => ?_, fun id payload there => ?_⟩
  · exact (preorderMapped copy).trans h.order
  · exact (parentMapped copy _).trans (h.parent id mem)
  · exact (childrenMapped copy _).trans (h.children id mem)
  · obtain ⟨other, found, is⟩ := h.payload id payload there
    refine ⟨_, (payloadMapped copy _).trans (congrArg _ found), ?_⟩
    dsimp only
    by_cases here : rename id = node
    · -- whatever default the copy had, this one takes its place
      rw [if_pos here]
      refine .inr ⟨text, .head _, ?_⟩
      rcases is with same | ⟨before, -, same⟩
      · rw [same]
      · rw [same, Payload.defaultTwice]
    · rw [if_neg here]
      rcases is with same | ⟨before, mem, same⟩
      · exact .inl same
      · exact .inr ⟨before, .tail _ mem, same⟩

end Tree
end SymbolCatalog
