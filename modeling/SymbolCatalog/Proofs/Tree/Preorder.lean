import Mathlib.Data.List.Flatten
import Mathlib.Data.List.Nodup
import SymbolCatalog.Tree.Basic

/-! What the depth-first order of a tree visits: every node once, each subtree as one block, and
children in the order in which they were added. -/
namespace SymbolCatalog.Tree
variable {t : Tree}

theorem descend {motive : NodeId → Prop}
    (step : ∀ id, (∀ child ∈ t.children id, motive child) → motive id) (id : NodeId) : motive id :=
  step id fun child _ => descend step child
termination_by t.size - id.index
decreasing_by exact descent (by assumption)

theorem ascend {motive : NodeId → Prop}
    (step : ∀ id, (∀ parent, t.parent? id = some parent → motive parent) → motive id) (id : NodeId) :
    motive id :=
  step id fun parent _ => ascend step parent
termination_by id.index
decreasing_by exact index_lt_of_parent? (by assumption)

theorem singleNodes (payload : Payload) : (single payload).nodes.toList = [⟨none, payload⟩] := by
  simp [single, nodes, Arena.single]

theorem nodesGrown (t : Tree) (p : NodeId) (payload : Payload) :
    ((t.arena.grow p payload).slots.map (·.toNode)).toList = t.nodes.toList ++ [⟨some p, payload⟩] := by
  unfold nodes
  rw [Arena.nodes_grow, Array.toList_push]

theorem idsIndex (t : Tree) : t.ids.map (·.index) = List.range t.size := by
  unfold ids
  rw [List.map_map]
  have same : ∀ n ∈ List.range t.size, ((·.index) ∘ NodeId.ofIndex) n = id n := by
    intro n mem
    have bound : t.size ≤ 0x100000000 := t.bounded
    have inside : n < t.size := List.mem_range.1 mem
    exact NodeId.index_ofIndex (by omega)
  rw [List.map_congr_left same, List.map_id]

theorem idsNodup (t : Tree) : t.ids.Nodup := by
  refine List.Nodup.of_map (·.index) ?_
  rw [idsIndex]
  exact List.nodup_range

theorem rootParent (t : Tree) : t.parent? .root = none := by
  cases h : t.parent? .root with
  | none => rfl
  | some parent => exact absurd (index_lt_of_parent? h) (Nat.not_lt_zero _)

theorem hasParent {id : NodeId} (inside : id.index < t.size) (h : id ≠ .root) :
    ∃ parent, t.parent? id = some parent := by
  have inside : id.index < t.arena.slots.size := inside
  have order := t.sound.ordered id.index inside
  have slot : t.arena.slot? id = some t.arena.slots[id.index] := Array.getElem?_eq_getElem inside
  have node : t.node? id = some t.arena.slots[id.index].toNode := congrArg (Option.map Slot.toNode) slot
  cases p : t.arena.slots[id.index].parent? with
  | none =>
    rw [p] at order
    refine absurd ?_ h
    rw [← NodeId.ofIndex_index id, order]
    rfl
  | some parent => exact ⟨parent, by rw [parent?, node]; exact p⟩

theorem childInTree {id parent : NodeId} (h : t.parent? id = some parent) : id.index < t.size :=
  Arena.inside_of_parent? h

theorem parentInTree {id parent : NodeId} (h : t.parent? id = some parent) : parent.index < t.size :=
  Nat.lt_trans (index_lt_of_parent? h) (childInTree h)

theorem memPreorderFrom {a x : NodeId} :
    x ∈ t.preorderFrom a ↔ x = a ∨ ∃ child ∈ t.children a, x ∈ t.preorderFrom child := by
  rw [preorderFrom_eq, List.mem_cons, List.mem_flatMap]

theorem memSelf (t : Tree) (id : NodeId) : id ∈ t.preorderFrom id := memPreorderFrom.2 (.inl rfl)

theorem childInside {a p c : NodeId} (inside : p ∈ t.preorderFrom a) (h : c ∈ t.children p) :
    c ∈ t.preorderFrom a := by
  induction a using t.descend with
  | step a ih =>
    rcases memPreorderFrom.1 inside with same | ⟨child, mem, below⟩
    · subst same
      exact memPreorderFrom.2 (.inr ⟨c, h, t.memSelf c⟩)
    · exact memPreorderFrom.2 (.inr ⟨child, mem, ih child mem below⟩)

theorem parentInside {a x : NodeId} (inside : x ∈ t.preorderFrom a) :
    x = a ∨ ∃ p, t.parent? x = some p ∧ p ∈ t.preorderFrom a := by
  induction a using t.descend with
  | step a ih =>
    rcases memPreorderFrom.1 inside with same | ⟨child, mem, below⟩
    · exact .inl same
    · right
      rcases ih child mem below with same | ⟨p, parent, between⟩
      · subst same
        exact ⟨a, (mem_children.1 mem).2, t.memSelf a⟩
      · exact ⟨p, parent, memPreorderFrom.2 (.inr ⟨child, mem, between⟩)⟩

theorem notBefore {a x : NodeId} (inside : x ∈ t.preorderFrom a) : a.index ≤ x.index := by
  induction a using t.descend with
  | step a ih =>
    rcases memPreorderFrom.1 inside with same | ⟨child, mem, below⟩
    · exact Nat.le_of_eq (congrArg _ same.symm)
    · have after := index_lt_of_mem_children mem
      have more := ih child mem below
      omega

/- Subtrees of siblings share no node: the first common node would be a root of one of them, and its
parent would stand in the other. -/
theorem siblingsApart {id a b : NodeId} (ha : a ∈ t.children id) (hb : b ∈ t.children id) (ne : a ≠ b) :
    (t.preorderFrom a).Disjoint (t.preorderFrom b) := by
  intro x inA inB
  induction x using t.ascend with
  | step x ih =>
    rcases parentInside inA with same | ⟨p, parent, upA⟩
    · subst same
      rcases parentInside inB with same | ⟨p, parent, upB⟩
      · exact ne same
      · cases (mem_children.1 ha).2.symm.trans parent
        have below := notBefore upB
        have after := index_lt_of_mem_children hb
        omega
    · rcases parentInside inB with same | ⟨p', parent', upB⟩
      · subst same
        cases (mem_children.1 hb).2.symm.trans parent
        have below := notBefore upA
        have after := index_lt_of_mem_children ha
        omega
      · cases parent.symm.trans parent'
        exact ih p parent upA upB

theorem childrenNodup (t : Tree) (id : NodeId) : (t.children id).Nodup :=
  t.children_eq id ▸ t.idsNodup.filter _

theorem subtreeNodup (t : Tree) (id : NodeId) : (t.preorderFrom id).Nodup := by
  induction id using t.descend with
  | step id ih =>
    rw [preorderFrom_eq, List.nodup_cons]
    constructor
    · intro mem
      obtain ⟨child, hc, below⟩ := List.mem_flatMap.1 mem
      have after := index_lt_of_mem_children hc
      have more := notBefore below
      omega
    · refine List.nodup_flatMap.2 ⟨ih, ?_⟩
      exact (t.childrenNodup id).pairwise_of_forall_ne fun a ha b hb ne => siblingsApart ha hb ne

theorem preorderNodup (t : Tree) : t.preorder.Nodup := t.subtreeNodup .root

theorem memPreorder {x : NodeId} : x ∈ t.preorder ↔ x.index < t.size := by
  constructor
  · intro inside
    rcases parentInside inside with same | ⟨p, parent, -⟩
    · subst same
      exact t.nonempty
    · exact childInTree parent
  · intro inside
    induction x using t.ascend with
    | step x ih =>
      by_cases root : x = .root
      · exact root ▸ t.memSelf .root
      · obtain ⟨p, parent⟩ := hasParent inside root
        have up := ih p parent (parentInTree parent)
        exact childInside up (mem_children.2 ⟨inside, parent⟩)

theorem preorderPerm (t : Tree) : t.preorder.Perm t.ids :=
  (List.perm_ext_iff_of_nodup t.preorderNodup t.idsNodup).2 fun _ => memPreorder.trans mem_ids.symm

theorem preorderLength (t : Tree) : t.preorder.length = t.size := by
  rw [t.preorderPerm.length_eq, ids, List.length_map, List.length_range]

theorem subtreeBlock {id : NodeId} (inside : id.index < t.size) : t.preorderFrom id <:+: t.preorder := by
  induction id using t.ascend with
  | step id ih =>
    by_cases root : id = .root
    · exact root ▸ List.infix_refl _
    · obtain ⟨p, parent⟩ := hasParent inside root
      refine List.IsInfix.trans ?_ (ih p parent (parentInTree parent))
      rw [preorderFrom_eq t p]
      have child := List.mem_map_of_mem (f := t.preorderFrom) (mem_children.2 ⟨inside, parent⟩)
      exact List.infix_cons (List.infix_of_mem_flatten child)

theorem childrenInPreorder (t : Tree) (id : NodeId) :
    t.preorder.filter (t.parent? · = some id) = t.children id := by
  have sub : (t.children id).Sublist t.preorder := by
    cases h : t.children id with
    | nil => exact List.nil_sublist _
    | cons first rest =>
      have parent : t.parent? first = some id := (mem_children.1 (h ▸ List.mem_cons_self)).2
      rw [← h]
      refine List.Sublist.trans ?_ (subtreeBlock (parentInTree parent)).sublist
      rw [preorderFrom_eq]
      have each : ∀ child ∈ t.children id, [child].Sublist (t.preorderFrom child) := fun child _ =>
        List.singleton_sublist.2 (t.memSelf child)
      have all := List.Sublist.flatMap_right _ each
      rw [List.flatMap_singleton'] at all
      exact all.cons _
  have only : (t.children id).filter (t.parent? · = some id) = t.children id :=
    List.filter_eq_self.2 fun child mem => by simpa using (mem_children.1 mem).2
  have part := sub.filter (t.parent? · = some id)
  rw [only] at part
  refine (part.eq_of_length_le ?_).symm
  refine (t.preorderNodup.filter _).length_le_of_subset fun x mem => ?_
  obtain ⟨inside, parent⟩ := List.mem_filter.1 mem
  exact mem_children.2 ⟨memPreorder.1 inside, by simpa using parent⟩

/-! Visiting with a stack. -/

theorem waitingStep (t : Tree) (id : NodeId) (waiting : List NodeId) :
    (id :: waiting).flatMap t.preorderFrom = id :: (t.children id ++ waiting).flatMap t.preorderFrom := by
  rw [List.flatMap_cons, preorderFrom_eq, List.cons_append, List.flatMap_append]

theorem visitTakes (t : Tree) (steps : Nat) (waiting : List NodeId) :
    (t.arena.visit steps waiting).1 = (waiting.flatMap t.preorderFrom).take steps ∧
    ((t.arena.visit steps waiting).2 = [] ↔ (waiting.flatMap t.preorderFrom).length ≤ steps) := by
  -- The subtrees of all that wait, one after the other, are what is still to come.
  induction steps generalizing waiting with
  | zero =>
    cases waiting with
    | nil => simp [Arena.visit]
    | cons id waiting =>
      rw [waitingStep]
      simp [Arena.visit]
  | succ steps ih =>
    cases waiting with
    | nil => simp [Arena.visit]
    | cons id waiting =>
      obtain ⟨visited, left⟩ := ih (t.children id ++ waiting)
      rw [waitingStep, List.take_succ_cons, List.length_cons, Arena.visit, Nat.add_le_add_iff_right]
      exact ⟨congrArg _ visited, left⟩

theorem visitSteps (t : Tree) (steps : Nat) : (t.arena.visit steps [.root]).1 = t.preorder.take steps ∧
    ((t.arena.visit steps [.root]).2 = [] ↔ t.size ≤ steps) := by
  have whole : [NodeId.root].flatMap t.preorderFrom = t.preorder := List.flatMap_singleton _ _
  have takes := t.visitTakes steps [.root]
  rwa [whole, preorderLength] at takes

theorem iterPreorder (t : Tree) : t.arena.iter = t.preorder :=
  (t.visitSteps t.size).1.trans (List.take_of_length_le (Nat.le_of_eq t.preorderLength))

end SymbolCatalog.Tree
