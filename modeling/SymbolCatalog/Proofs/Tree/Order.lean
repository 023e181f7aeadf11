import Mathlib.Data.List.Sort
import SymbolCatalog.Proofs.Tree.Preorder

/-! Trees that grow in depth-first order. A node that is put below the last node, or below one on the
way from there to the root, leaves every subtree one run of ids; so the ids of a tree that grew this
way are in depth-first order. -/
namespace SymbolCatalog

def NodeId.before (id : NodeId) : NodeId := .ofIndex (id.index - 1)

theorem NodeId.beforeIndex (id : NodeId) : id.before.index = id.index - 1 :=
  index_ofIndex (Nat.lt_of_le_of_lt (Nat.sub_le _ _) id.index_lt)

theorem NodeId.indexInjective {a b : NodeId} (same : a.index = b.index) : a = b := by
  rw [← ofIndex_index a, same, ofIndex_index]

namespace Tree
variable {t t' : Tree}

/- Each node was put below the node before it, or below one on the way from there to the root. -/
def Compact (t : Tree) : Prop := ∀ x p, t.parent? x = some p → x.before ∈ t.preorderFrom p

def last (t : Tree) : NodeId := .ofIndex (t.size - 1)

def OpenAt (t : Tree) (p : NodeId) : Prop := t.last ∈ t.preorderFrom p

def Extends (t t' : Tree) : Prop := t.nodes.toList <+: t'.nodes.toList

theorem subtreeInside {a b x : NodeId} (within : b ∈ t.preorderFrom a) (inside : x ∈ t.preorderFrom b) :
    x ∈ t.preorderFrom a := by
  induction x using t.ascend with
  | step x ih =>
    rcases parentInside inside with same | ⟨p, parent, up⟩
    · exact same ▸ within
    · exact childInside (ih p parent up) (mem_children.2 ⟨childInTree parent, parent⟩)

theorem Compact.between {p x z : NodeId} (compact : t.Compact) (inside : x ∈ t.preorderFrom p)
    (low : p.index ≤ z.index) (high : z.index ≤ x.index) : z ∈ t.preorderFrom p := by
  induction h : x.index - z.index generalizing x with
  | zero =>
    have same : z = x := NodeId.indexInjective (by omega)
    exact same ▸ inside
  | succ n ih =>
    rcases parentInside inside with same | ⟨q, parent, up⟩
    · subst same
      omega
    · have index := x.beforeIndex
      exact ih (subtreeInside up (compact x q parent)) (by omega) (by omega)

theorem childrenAscend (t : Tree) (id : NodeId) : (t.children id).Pairwise (·.index < ·.index) := by
  have ids : t.ids.Pairwise (·.index < ·.index) := by
    rw [← List.pairwise_map, idsIndex]
    exact List.pairwise_lt_range
  exact t.children_eq id ▸ ids.filter _

theorem Compact.subtreeAscends (compact : t.Compact) (id : NodeId) :
    (t.preorderFrom id).Pairwise (·.index < ·.index) := by
  induction id using t.descend with
  | step id ih =>
    rw [preorderFrom_eq, List.pairwise_cons]
    constructor
    · intro x mem
      obtain ⟨child, hc, below⟩ := List.mem_flatMap.1 mem
      exact Nat.lt_of_lt_of_le (index_lt_of_mem_children hc) (notBefore below)
    · refine List.pairwise_flatMap.2 ⟨ih, (t.childrenAscend id).imp_of_mem ?_⟩
      intro a b ha hb less x inA y inB
      have after := notBefore inB
      by_contra order
      -- otherwise the later sibling would stand between the earlier one and a node below it
      have among := compact.between inA (Nat.le_of_lt less) (by omega)
      have apart := siblingsApart ha hb fun same => Nat.ne_of_lt less (congrArg _ same)
      exact apart among (t.memSelf b)

theorem Compact.inOrder (compact : t.Compact) : t.preorder = t.ids := by
  have sorted : (t.preorder.map (·.index)).Pairwise (· < ·) :=
    List.pairwise_map.2 (compact.subtreeAscends .root)
  have range : (t.ids.map (·.index)).Pairwise (· < ·) := by
    rw [idsIndex]
    exact List.pairwise_lt_range
  have perm := t.preorderPerm.map (·.index)
  have same := perm.eq_of_pairwise (fun a b _ _ less more => absurd less (Nat.lt_asymm more)) sorted range
  exact List.map_injective_iff.2 (fun a b => NodeId.indexInjective) same

theorem singleCompact (payload : Payload) : (single payload).Compact ∧ (single payload).OpenAt .root := by
  refine ⟨fun x p parent => ?_, (single payload).memSelf _⟩
  have inside : x.index < 1 := childInTree parent
  have after := index_lt_of_parent? parent
  omega

theorem Extends.node (more : Extends t t') {x : NodeId} (inside : x.index < t.size) : t'.node? x = t.node? x := by
  obtain ⟨rest, nodes⟩ := more
  have inside : x.index < t.nodes.toList.length := by rwa [Array.length_toList, nodes_size]
  rw [node?_eq, node?_eq, ← Array.getElem?_toList, ← Array.getElem?_toList, ← nodes, List.getElem?_append_left inside]

theorem Extends.parent (more : Extends t t') {x : NodeId} (inside : x.index < t.size) :
    t'.parent? x = t.parent? x := by
  unfold parent?
  rw [more.node inside]

theorem Extends.subtree (more : Extends t t') {a x : NodeId} (inside : x ∈ t.preorderFrom a) :
    x ∈ t'.preorderFrom a := by
  induction x using t.ascend with
  | step x ih =>
    rcases parentInside inside with same | ⟨p, parent, up⟩
    · exact same ▸ t'.memSelf x
    · have parent' := (more.parent (childInTree parent)).trans parent
      exact childInside (ih p parent up) (mem_children.2 ⟨childInTree parent', parent'⟩)

section
variable {p id : NodeId} {payload : Payload} (added : t.addChild p payload = .ok (id, t'))
include added

theorem addedNodes : t'.nodes.toList = t.nodes.toList ++ [⟨some p, payload⟩] ∧ id = .ofIndex t.size ∧
    p.index < t.size ∧ t.size < 0x100000000 := by
  unfold addChild at added
  split at added
  · next inside =>
    split at added
    · next room =>
      cases added
      exact ⟨t.nodesGrown p payload, rfl, inside, room⟩
    · cases added
  · cases added

theorem addedExtends : Extends t t' := by
  unfold Extends
  rw [(addedNodes added).1]
  exact List.prefix_append _ _

theorem addedSize : t'.size = t.size + 1 := by
  have length := congrArg List.length (addedNodes added).1
  rwa [List.length_append, Array.length_toList, Array.length_toList, nodes_size, nodes_size] at length

theorem addedParent : t'.parent? id = some p := by
  obtain ⟨nodes, same, -, room⟩ := addedNodes added
  have index : id.index = t.nodes.toList.length := by
    rw [same, NodeId.index_ofIndex room, Array.length_toList, nodes_size]
  unfold parent?
  rw [node?_eq, ← Array.getElem?_toList, nodes, index, List.getElem?_concat_length]
  rfl

theorem addedLast : t'.last = id := by
  rw [last, addedSize added, (addedNodes added).2.1]
  rfl

theorem Compact.grows (compact : t.Compact) (isOpen : t.OpenAt p) :
    t'.Compact ∧ t'.OpenAt p ∧ t'.OpenAt id := by
  have more := addedExtends added
  have parent := addedParent added
  have child : id ∈ t'.children p := mem_children.2 ⟨childInTree parent, parent⟩
  have index : id.index = t.size := by
    obtain ⟨-, same, -, room⟩ := addedNodes added
    rw [same, NodeId.index_ofIndex room]
  have here := addedLast added
  refine ⟨fun x q up => ?_, ?_, ?_⟩
  · by_cases same : x = id
    · subst same
      cases parent.symm.trans up
      have before : x.before = t.last := by
        rw [NodeId.before, index]
        rfl
      rw [before]
      exact more.subtree isOpen
    · have old : x.index < t.size := by
        have inside := childInTree up
        rw [addedSize added] at inside
        have other : x.index ≠ id.index := fun h => same (NodeId.indexInjective h)
        omega
      exact more.subtree (compact x q ((more.parent old).symm.trans up))
  · unfold OpenAt
    rw [here]
    exact childInside (t'.memSelf p) child
  · unfold OpenAt
    rw [here]
    exact t'.memSelf id

end
end Tree
end SymbolCatalog
