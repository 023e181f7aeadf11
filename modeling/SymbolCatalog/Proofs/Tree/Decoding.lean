import SymbolCatalog.Proofs.Tree.Payload
import SymbolCatalog.Proofs.Tree.Preorder

/-! What the bytes of a tree decode to: its nodes in depth-first order, each under the position of
its parent in this order. -/
namespace SymbolCatalog
open ExceptT

namespace Tree

def place (t : Tree) (id : NodeId) : NodeId := .ofIndex (t.preorder.idxOf id)

def restored (t : Tree) (id : NodeId) : Node :=
  ⟨(t.parent? id).map t.place, ((t.payload? id).getD .parameterList).settled⟩

def Storable (t : Tree) : Prop := ∀ id payload, t.payload? id = some payload → SymbolCatalog.Storable payload.texts

def Sized (t : Tree) : Prop := ∀ id payload, t.payload? id = some payload → payload.fields.Sized

theorem Storable.sized {t : Tree} (storable : t.Storable) : t.Sized := by
  intro id payload there
  have texts := storable id payload there
  rw [← Payload.fieldsTexts] at texts
  exact RecordFields.sized texts

theorem rootInTree (t : Tree) : NodeId.root.index < t.size := t.nonempty

theorem nodeThere {t : Tree} {id : NodeId} (inside : id.index < t.size) :
    t.node? id = some ⟨t.parent? id, t.payload id inside⟩ := by
  have inArray : id.index < t.arena.slots.size := inside
  have slot : t.arena.slot? id = some t.arena.slots[id.index] := Array.getElem?_eq_getElem inArray
  have node : t.node? id = some t.arena.slots[id.index].toNode := congrArg (Option.map Slot.toNode) slot
  rw [parent?, node]
  rfl

theorem payloadThere {t : Tree} {id : NodeId} (inside : id.index < t.size) :
    t.payload? id = some (t.payload id inside) := by
  rw [payload?, nodeThere inside]
  rfl

theorem placeIndex {t : Tree} {id : NodeId} (inside : id.index < t.size) :
    (t.place id).index = t.preorder.idxOf id := by
  have below := List.idxOf_lt_length_of_mem (memPreorder.2 inside)
  have bound : t.size ≤ 0x100000000 := t.bounded
  rw [preorderLength] at below
  exact NodeId.index_ofIndex (Nat.lt_of_lt_of_le below bound)

theorem placeRoot (t : Tree) : t.place .root = .root := by
  have first : t.preorder.idxOf .root = 0 := by
    unfold preorder
    rw [preorderFrom_eq]
    exact List.idxOf_cons_self
  unfold place
  rw [first]
  rfl

theorem recordFromEq {t : Tree} {id : NodeId} (inside : id.index < t.size) :
    t.recordFrom id inside = .mk (t.payload id inside).fields
      ((t.children id).attach.map fun c => t.recordFrom c.1 (mem_children.1 c.2).1) := by
  rw [recordFrom]

theorem childrenFew (t : Tree) (id : NodeId) : (t.children id).length < 2 ^ 64 := by
  have part : (t.children id).length ≤ t.ids.length := t.children_eq id ▸ List.length_filter_le _ _
  have all : t.ids.length = t.size := by simp [ids]
  have bound : t.size ≤ 0x100000000 := t.bounded
  omega

theorem recordCoded {t : Tree} (sized : t.Sized) {id : NodeId} (inside : id.index < t.size) :
    (t.recordFrom id inside).Coded .two := by
  induction id using t.descend with
  | step id ih =>
    rw [recordFromEq inside]
    refine .mk _ _ (sized id _ (payloadThere inside)).coded ?_ ?_
    · rw [List.length_map, List.length_attach]
      exact t.childrenFew id
    · intro r mem
      obtain ⟨⟨child, hc⟩, -, same⟩ := List.mem_map.1 mem
      subst same
      exact ih child hc (mem_children.1 hc).1

/- Attaching the record of a node puts the nodes of its subtree behind the nodes before it. -/
def Attaches (t : Tree) (id : NodeId) : Prop :=
  ∀ (inside : id.index < t.size) (parent : NodeId) (built : Tree) (table : NameTable)
    (before after : List NodeId), t.parent? id = some parent → parent ∈ before →
    t.preorder = before ++ t.preorderFrom id ++ after → built.nodes.toList = before.map t.restored →
    (Record.attach built (t.place parent) (t.recordFrom id inside)).Ends table
      (fun built' _ => built'.nodes.toList = (before ++ t.preorderFrom id).map t.restored) fun _ => False

theorem attachChildren {t : Tree} {id : NodeId} (each : ∀ child ∈ t.children id, t.Attaches child)
    (children : List { child // child ∈ t.children id }) (built : Tree) (table : NameTable)
    (before after : List NodeId) (up : id ∈ before)
    (order : t.preorder = before ++ children.flatMap (fun c => t.preorderFrom c.1) ++ after)
    (nodes : built.nodes.toList = before.map t.restored) :
    (Record.attachAll built (t.place id)
      (children.map fun c => t.recordFrom c.1 (mem_children.1 c.2).1)).Ends table
      (fun built' _ => built'.nodes.toList =
        (before ++ children.flatMap (fun c => t.preorderFrom c.1)).map t.restored) fun _ => False := by
  induction children generalizing built table before with
  | nil =>
    rw [List.flatMap_nil, List.append_nil]
    exact endsPure nodes
  | cons first rest ih =>
    obtain ⟨child, mem⟩ := first
    simp only [List.flatMap_cons] at order ⊢
    have parent := (mem_children.1 mem).2
    have here : t.preorder = before ++ t.preorderFrom child ++
        (rest.flatMap (fun c => t.preorderFrom c.1) ++ after) := by rw [order]; simp
    rw [List.map_cons, Record.attachAll]
    refine endsBind ((each child mem (mem_children.1 mem).1 id built table before _ parent up here nodes).weaken
      ?_ fun _ no => no)
    intro built' table' nodes'
    have more := ih built' table' (before ++ t.preorderFrom child) (List.mem_append_left _ up)
      (by rw [order]; simp) nodes'
    rwa [List.append_assoc] at more

theorem addChildDone {t : Tree} {parent : NodeId} (inside : parent.index < t.size)
    (room : t.size < 0x100000000) (payload : Payload) : ∃ t', t.addChild parent payload =
      .ok (.ofIndex t.size, t') ∧ t'.nodes.toList = t.nodes.toList ++ [⟨some parent, payload⟩] := by
  unfold addChild
  rw [dif_pos inside, dif_pos room]
  exact ⟨_, rfl, t.nodesGrown parent payload⟩

theorem attachRecord (t : Tree) (id : NodeId) : t.Attaches id := by
  induction id using t.descend with
  | step id ih =>
    intro inside parent built table before after up known order nodes
    have size : built.size = before.length := by
      rw [← nodes_size, ← Array.length_toList, nodes, List.length_map]
    have fresh : id ∉ before := by
      have distinct := t.preorderNodup
      rw [order, preorderFrom_eq, List.append_assoc] at distinct
      intro mem
      exact (List.nodup_append.1 distinct).2.2 id mem id (by simp) rfl
    have position : t.preorder.idxOf id = before.length := by
      rw [order, preorderFrom_eq, List.append_assoc, List.idxOf_append, if_neg fresh]
      simp
    have above : (t.place parent).index < built.size := by
      rw [placeIndex (parentInTree up), order, List.append_assoc, List.idxOf_append, if_pos known, size]
      exact List.idxOf_lt_length_of_mem known
    have room : built.size < 0x100000000 := by
      have below := List.idxOf_lt_length_of_mem (memPreorder.2 inside)
      rw [preorderLength, position] at below
      have bound : t.size ≤ 0x100000000 := t.bounded
      omega
    rw [recordFromEq inside, Record.attach]
    refine endsBind ((Record.endsPayload _ table).weaken ?_ fun _ no => no)
    intro payload table' same
    subst same
    obtain ⟨built', added, nodes'⟩ := addChildDone above room (t.payload id inside).settled
    have here : NodeId.ofIndex built.size = t.place id := by rw [place, position, size]
    have self : (⟨some (t.place parent), (t.payload id inside).settled⟩ : Node) = t.restored id := by
      rw [restored, up, payloadThere inside]
      rfl
    rw [added, here]
    rw [nodes, self, ← List.map_singleton, ← List.map_append] at nodes'
    have block : t.preorder = (before ++ [id]) ++
        (t.children id).attach.flatMap (fun c => t.preorderFrom c.1) ++ after := by
      rw [order, preorderFrom_eq]
      simp
    have all := attachChildren ih (t.children id).attach built' table' (before ++ [id]) after (by simp) block nodes'
    have whole : (before ++ [id]) ++ (t.children id).attach.flatMap (fun c => t.preorderFrom c.1) =
        before ++ t.preorderFrom id := by
      rw [preorderFrom_eq]
      simp
    rwa [whole] at all

theorem decodeWritten {t : Tree} (sized : t.Sized) (table : NameTable) :
    ∃ t' table', decode t.encode table = (.ok t', table') ∧ t'.nodes.toList = t.preorder.map t.restored := by
  have file : Record.ofFile t.encode = .ok t.record := Record.ofFileWritten (recordCoded sized t.rootInTree)
  have tree : (t.record.tree).Ends table
      (fun t' _ => t'.nodes.toList = t.preorder.map t.restored) fun _ => False := by
    unfold record
    rw [recordFromEq t.rootInTree, Record.tree]
    refine endsBind ((Record.endsPayload _ table).weaken ?_ fun _ no => no)
    intro payload table' same
    subst same
    have self : (⟨none, (t.payload .root t.rootInTree).settled⟩ : Node) = t.restored .root := by
      rw [restored, rootParent, payloadThere t.rootInTree]
      rfl
    have nodes : (Tree.single (t.payload .root t.rootInTree).settled).nodes.toList = [NodeId.root].map t.restored := by
      rw [List.map_singleton, ← self]
      exact singleNodes _
    have block : t.preorder = [NodeId.root] ++
        (t.children .root).attach.flatMap (fun c => t.preorderFrom c.1) ++ [] := by
      unfold preorder
      rw [preorderFrom_eq]
      simp
    have all := attachChildren (fun child _ => t.attachRecord child) (t.children .root).attach _ table'
      [NodeId.root] [] (by simp) block nodes
    rw [List.append_nil] at block
    rwa [placeRoot, ← block] at all
  obtain ⟨t', table', run, nodes⟩ := tree.succeeds
  refine ⟨t', table', ?_, nodes⟩
  unfold decode
  rw [file]
  exact run

theorem decodeEncoded {t : Tree} (storable : t.Storable) (table : NameTable) :
    ∃ t' table', decode t.encode table = (.ok t', table') ∧ t'.nodes.toList = t.preorder.map t.restored :=
  decodeWritten storable.sized table

end Tree
end SymbolCatalog
