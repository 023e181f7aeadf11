import SymbolCatalog.Proofs.Ends
import SymbolCatalog.Proofs.Tree.Order

/-! What adding to a tree leaves and what it adds. New nodes stand behind all others, so the nodes of a
tree tell its children, and those of the new nodes follow those there were. -/
namespace SymbolCatalog.Tree
open ExceptT
variable {t t' t'' : Tree} {p x : NodeId} {new more : List Node}

def childrenAmong (p : NodeId) (first : Nat) (nodes : List Node) : List NodeId :=
  ((nodes.zipIdx first).filter (·.1.parent? = some p)).map (.ofIndex ·.2)

theorem childrenOfNodes (t : Tree) (p : NodeId) : t.children p = childrenAmong p 0 t.nodes.toList := by
  have ids : t.ids = (t.nodes.toList.zipIdx 0).map (.ofIndex ·.2) := by
    unfold ids
    rw [← nodes_size, ← Array.length_toList, List.range_eq_range', ← List.zipIdx_map_snd 0 t.nodes.toList, List.map_map]
    rfl
  have parents : ∀ node ∈ t.nodes.toList.zipIdx 0, t.parent? (.ofIndex node.2) = node.1.parent? := by
    intro node mem
    have found := List.mem_zipIdx_iff_getElem?.mp mem
    have bound : t.size ≤ 0x100000000 := t.bounded
    have below : node.2 < t.nodes.toList.length := (List.getElem?_eq_some_iff.mp found).1
    rw [Array.length_toList, nodes_size] at below
    unfold parent?
    rw [node?_eq, NodeId.index_ofIndex (by omega), ← Array.getElem?_toList, found]
    rfl
  unfold childrenAmong
  rw [children_eq, ids, List.filter_map]
  refine congrArg (List.map _) (List.filter_congr fun node mem => ?_)
  rw [Function.comp_apply, parents node mem]

theorem childrenAmongAppend (p : NodeId) (first : Nat) (new more : List Node) :
    childrenAmong p first (new ++ more) = childrenAmong p first new ++ childrenAmong p (first + new.length) more := by
  unfold childrenAmong
  rw [List.zipIdx_append, List.filter_append, List.map_append]

theorem childrenAmongCons (p : NodeId) (first : Nat) (node : Node) (more : List Node) :
    childrenAmong p first (node :: more) =
      (if node.parent? = some p then [.ofIndex first] else []) ++ childrenAmong p (first + 1) more := by
  unfold childrenAmong
  rw [List.zipIdx_cons, List.filter_cons]
  by_cases own : node.parent? = some p
  · simp [own]
  · simp [own]

theorem childrenAmongNil (p : NodeId) (first : Nat) : childrenAmong p first [] = [] := rfl

theorem childrenAmongSiblings (x p : NodeId) (first : Nat) (payloads : List Payload) :
    childrenAmong x first (payloads.map (⟨some p, ·⟩)) =
      if x = p then (List.range' first payloads.length).map .ofIndex else [] := by
  induction payloads generalizing first with
  | nil => simp [childrenAmongNil]
  | cons payload payloads ih =>
    rw [List.map_cons, childrenAmongCons, ih]
    by_cases own : x = p
    · simp [own, List.range'_succ]
    · simp [own, Ne.symm own]

def next (t : Tree) (i : Nat) : NodeId := .ofIndex (t.size + i)

def Appends (t : Tree) (new : List Node) (t' : Tree) : Prop := t'.nodes.toList = t.nodes.toList ++ new

theorem Appends.trans (first : t.Appends new t') (second : t'.Appends more t'') : t.Appends (new ++ more) t'' := by
  unfold Appends at first second ⊢
  rw [second, first, List.append_assoc]

section
variable (appended : t.Appends new t')
include appended

theorem Appends.size : t'.size = t.size + new.length := by
  have length := congrArg List.length appended
  rwa [List.length_append, Array.length_toList, Array.length_toList, nodes_size, nodes_size] at length

theorem Appends.older (inside : x.index < t.size) : t'.node? x = t.node? x :=
  Extends.node ⟨new, appended.symm⟩ inside

theorem Appends.children (x : NodeId) : t'.children x = t.children x ++ childrenAmong x t.size new := by
  rw [childrenOfNodes, childrenOfNodes, appended, childrenAmongAppend, Nat.zero_add, Array.length_toList, nodes_size]

theorem Appends.indexed {i : Nat} (below : i < new.length) : (t.next i).index = t.size + i := by
  have size := appended.size
  have bound : t'.size ≤ 0x100000000 := t'.bounded
  exact NodeId.index_ofIndex (by omega)

theorem Appends.newer {i : Nat} {node : Node} (found : new[i]? = some node) : t'.node? (t.next i) = some node := by
  have below : i < new.length := (List.getElem?_eq_some_iff.mp found).1
  have length : t.nodes.toList.length = t.size := by rw [Array.length_toList, nodes_size]
  rw [node?_eq, appended.indexed below, ← Array.getElem?_toList, appended, List.getElem?_append_right (by omega), length,
    Nat.add_sub_cancel_left, found]

end

theorem childrenOutside (outside : t.size ≤ x.index) : t.children x = [] := by
  refine List.eq_nil_iff_forall_not_mem.mpr fun child mem => ?_
  have inside := parentInTree (mem_children.mp mem).2
  omega

theorem addsChild (inside : p.index < t.size) (room : t.size < 0x100000000) (payload : Payload) :
    (Arena.add p payload).Ends t.arena
      (fun id a => id = t.next 0 ∧ ∃ t' : Tree, t'.arena = a ∧ t.Appends [⟨some p, payload⟩] t') fun _ => False := by
  unfold Ends
  rw [Arena.add_inside inside payload]
  refine ⟨rfl, ⟨t.arena.grow p payload, by simp, ?_, t.sound.grow inside room payload⟩, rfl, t.nodesGrown p payload⟩
  rw [Arena.size_grow]
  exact room

theorem addsAll (inside : p.index < t.size) {payloads : List Payload} (room : t.size + payloads.length ≤ 0x100000000) :
    (payloads.forM fun payload => do let _ ← Arena.add p payload).Ends t.arena
      (fun _ a => ∃ t' : Tree, t'.arena = a ∧ t.Appends (payloads.map (⟨some p, ·⟩)) t') fun _ => False := by
  induction payloads generalizing t with
  | nil => exact endsPure ⟨t, rfl, (List.append_nil _).symm⟩
  | cons payload payloads ih =>
    rw [List.length_cons] at room
    refine endsBind (endsBind ((addsChild inside (by omega) payload).weaken ?_ fun _ => id))
    rintro _ _ ⟨-, t', rfl, first⟩
    have size : t'.size = t.size + 1 := first.size
    refine endsPure ((ih (by omega) (by omega)).weaken ?_ fun _ => id)
    rintro _ _ ⟨t'', rfl, rest⟩
    exact ⟨t'', rfl, first.trans rest⟩

end SymbolCatalog.Tree
