import SymbolCatalog.Tree.Arena

/-! Trees of declarations, one for each file: arenas in which the children of the nodes agree with
their parents and every node has an id of its own. `Tree.preorder` visits the root first and each
subtree as one block. -/
namespace SymbolCatalog

structure Tree where
  arena : Arena
  nonempty : 0 < arena.size
  bounded : arena.size ≤ 0x100000000
  sound : arena.Sound

namespace Tree

inductive GrowError where
  | unknownParent (id : NodeId)
  /-- The next id would be that of the root again. -/
  | full
  deriving DecidableEq, Repr

def GrowError.message : GrowError → String
  | .unknownParent id => (UnknownParent.mk id).message
  | .full => "the tree holds no more nodes"

def single (payload : Payload) : Tree where
  arena := .single payload
  nonempty := Nat.zero_lt_one
  bounded := by simp [Arena.single, Arena.size]
  sound := .single payload

def ofFile (package? : Option String) : Tree := single (.file package?)

instance : Inhabited Tree := ⟨ofFile none⟩

def size (t : Tree) : Nat := t.arena.size

def nodes (t : Tree) : Array Node := t.arena.slots.map (·.toNode)

def addChild (t : Tree) (parent : NodeId) (payload : Payload) : Except GrowError (NodeId × Tree) :=
  if inside : parent.index < t.size then
    if room : t.size < 0x100000000 then
      .ok (.ofIndex t.size,
        { arena := t.arena.grow parent payload
          nonempty := by simp
          bounded := by rw [Arena.size_grow]; exact room
          sound := t.sound.grow inside room payload })
    else .error .full
  else .error (.unknownParent parent)

theorem add_room {t : Tree} (room : t.size < 0x100000000) (parent : NodeId) (payload : Payload) :
    Arena.add parent payload t.arena =
      match t.addChild parent payload with
      | .ok (id, t') => (.ok id, t'.arena)
      | .error _ => (.error ⟨parent⟩, t.arena) := by
  rw [Arena.run_add, addChild]
  change (if parent.index < t.size then _ else _) = _
  by_cases inside : parent.index < t.size
  · rw [if_pos inside, dif_pos inside, dif_pos room]
    rfl
  · rw [if_neg inside, dif_neg inside]

def node? (t : Tree) (id : NodeId) : Option Node := t.arena.node? id

def contains (t : Tree) (id : NodeId) : Bool := id.index < t.size

def payload? (t : Tree) (id : NodeId) : Option Payload := (t.node? id).map (·.payload)

def kind? (t : Tree) (id : NodeId) : Option Kind := (t.payload? id).map (·.kind)

def parent? (t : Tree) (id : NodeId) : Option NodeId := (t.node? id).bind (·.parent?)

def ids (t : Tree) : List NodeId := (List.range t.size).map .ofIndex

def children (t : Tree) (id : NodeId) : List NodeId := t.arena.children id

def findChild? (t : Tree) (id : NodeId) (kind : Kind) : Option NodeId :=
  (t.children id).find? (t.kind? · = some kind)

def method? (t : Tree) (id : NodeId) : Option Method :=
  match t.payload? id with
  | some (.method m) => some m
  | _ => none

def mapPayload (t : Tree) (f : NodeId → Payload → Payload) : Tree where
  arena := t.arena.mapPayload f
  nonempty := by simpa [Arena.mapPayload, Arena.size] using t.nonempty
  bounded := by simpa [Arena.mapPayload, Arena.size] using t.bounded
  sound := t.sound.mapPayload f

def setDefault (t : Tree) (id : NodeId) (text : String) : Tree :=
  t.mapPayload fun other payload => if other = id then payload.withDefault text else payload

theorem nodes_size (t : Tree) : t.nodes.size = t.size := Array.size_map

theorem node?_eq (t : Tree) (id : NodeId) : t.node? id = t.nodes[id.index]? := by
  unfold node? nodes Arena.node? Arena.slot?
  rw [Array.getElem?_map]

theorem children_eq (t : Tree) (id : NodeId) : t.children id = t.ids.filter (t.parent? · = some id) :=
  t.sound.listed id

theorem mem_ids {t : Tree} {id : NodeId} : id ∈ t.ids ↔ id.index < t.size := Arena.mem_ids t.bounded

theorem index_lt_of_parent? {t : Tree} {id parent : NodeId} (h : t.parent? id = some parent) :
    parent.index < id.index := t.sound.before h

theorem mem_children {t : Tree} {id child : NodeId} :
    child ∈ t.children id ↔ child.index < t.size ∧ t.parent? child = some id := by
  simp [children_eq, mem_ids]

theorem index_lt_of_mem_children {t : Tree} {id child : NodeId} (h : child ∈ t.children id) :
    id.index < child.index :=
  index_lt_of_parent? (mem_children.1 h).2

/-- A child is one step nearer to the end of the array, which bounds every descent. -/
theorem descent {t : Tree} {id child : NodeId} (h : child ∈ t.children id) :
    t.size - child.index < t.size - id.index := by
  have := index_lt_of_mem_children h
  have := (mem_children.1 h).1
  omega

def preorderFrom (t : Tree) (id : NodeId) : List NodeId :=
  id :: (t.children id).attach.flatMap fun ⟨child, _⟩ => preorderFrom t child
termination_by t.size - id.index
decreasing_by exact descent (by assumption)

theorem preorderFrom_eq (t : Tree) (id : NodeId) :
    t.preorderFrom id = id :: (t.children id).flatMap t.preorderFrom := by
  rw [preorderFrom]
  simp

def preorder (t : Tree) : List NodeId := t.preorderFrom .root

def methods (t : Tree) : List (NodeId × Method) := t.arena.methods

end Tree
end SymbolCatalog
