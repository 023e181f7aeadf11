import SymbolCatalog.Tree.Payload

/-! Declaration nodes in an array, named by their positions. A node keeps the ids of its children in
the order in which they were added; nothing but the way in which an arena grows makes them agree
with the parents. -/
namespace SymbolCatalog

structure NodeId where
  raw : UInt32
  deriving DecidableEq, Repr, Inhabited

namespace NodeId

def root : NodeId := ⟨0⟩

def index (id : NodeId) : Nat := id.raw.toNat

/-- The id of a position. From 2^32 on ids start again. -/
def ofIndex (n : Nat) : NodeId := ⟨UInt32.ofNat n⟩

def inspect (id : NodeId) : String := Text.Inspect.wrapped "NodeId" (toString id.index)

instance : Wire NodeId := ⟨fun id => write id.raw, NodeId.mk <$> read⟩

theorem index_ofIndex {n : Nat} (h : n < 0x100000000) : (ofIndex n).index = n :=
  UInt32.toNat_ofNat_of_lt' h

@[simp] theorem ofIndex_index (id : NodeId) : ofIndex id.index = id := by
  simp [ofIndex, index]

theorem index_lt (id : NodeId) : id.index < 0x100000000 := id.raw.toNat_lt

end NodeId

structure Node where
  parent? : Option NodeId
  payload : Payload
  deriving DecidableEq, Repr, Inhabited

structure Slot extends Node where
  children : Array NodeId
  deriving DecidableEq, Repr, Inhabited

def Slot.adopt (slot : Slot) (child : NodeId) : Slot := { slot with children := slot.children.push child }

structure Arena where
  slots : Array Slot
  deriving DecidableEq, Repr, Inhabited

structure UnknownParent where
  id : NodeId
  deriving DecidableEq, Repr

def UnknownParent.message (e : UnknownParent) : String := "parent " ++ e.id.inspect ++ " is not part of this tree"

abbrev Growing := ExceptT UnknownParent (StateM Arena)

namespace Arena
variable {a : Arena} {p x : NodeId} {payload : Payload}

def single (payload : Payload) : Arena := ⟨#[⟨⟨none, payload⟩, #[]⟩]⟩

def size (a : Arena) : Nat := a.slots.size

def slot? (a : Arena) (id : NodeId) : Option Slot := a.slots[id.index]?

def node? (a : Arena) (id : NodeId) : Option Node := (a.slot? id).map (·.toNode)

def parent? (a : Arena) (id : NodeId) : Option NodeId := (a.node? id).bind (·.parent?)

def payload? (a : Arena) (id : NodeId) : Option Payload := (a.node? id).map (·.payload)

def kind? (a : Arena) (id : NodeId) : Option Kind := (a.payload? id).map (·.kind)

def children (a : Arena) (id : NodeId) : List NodeId := ((a.slot? id).map (·.children.toList)).getD []

def ids (a : Arena) : List NodeId := (List.range a.size).map .ofIndex

def method? (a : Arena) (id : NodeId) : Option Method :=
  match a.payload? id with
  | some (.method m) => some m
  | _ => none

def grow (a : Arena) (parent : NodeId) (payload : Payload) : Arena :=
  ⟨(a.slots.push ⟨⟨some parent, payload⟩, #[]⟩).modify parent.index (·.adopt (.ofIndex a.size))⟩

def add (parent : NodeId) (payload : Payload) : Growing NodeId := do
  let a ← get
  if parent.index < a.size then
    set (a.grow parent payload)
    pure (.ofIndex a.size)
  else throw ⟨parent⟩

def addAll (calls : List (NodeId × Payload)) : Growing (List NodeId) := calls.mapM fun call => add call.1 call.2

def mapPayload (a : Arena) (f : NodeId → Payload → Payload) : Arena :=
  ⟨a.slots.mapIdx fun i slot => { slot with payload := f (.ofIndex i) slot.payload }⟩

/-- Visits so many nodes, if there are as many: the node on top of the stack is next, and its children
go on top of all that wait. What is left on the stack comes with the nodes that were visited. -/
def visit (a : Arena) : (steps : Nat) → (waiting : List NodeId) → List NodeId × List NodeId
  | 0, waiting => ([], waiting)
  | _ + 1, [] => ([], [])
  | steps + 1, id :: waiting =>
    let (visited, waiting) := a.visit steps (a.children id ++ waiting)
    (id :: visited, waiting)

def iter (a : Arena) : List NodeId := (a.visit a.size [.root]).1

def methods (a : Arena) : List (NodeId × Method) := a.iter.filterMap fun id => (a.method? id).map (id, ·)

/-- Every node but the first has a parent before it, and the children of a node are the nodes that name
it as their parent, as they stand in the array. -/
structure Sound (a : Arena) : Prop where
  ordered : ∀ i (h : i < a.slots.size),
    match a.slots[i].parent? with
    | none => i = 0
    | some parent => parent.index < i
  listed : ∀ id, a.children id = a.ids.filter (a.parent? · = some id)

theorem run_add (p : NodeId) (payload : Payload) (a : Arena) : add p payload a =
    if p.index < a.size then (.ok (.ofIndex a.size), a.grow p payload) else (.error ⟨p⟩, a) := by
  change (if p.index < a.size then _ else throw ⟨p⟩ : Growing NodeId) a = _
  split <;> rfl

theorem add_inside (inside : p.index < a.size) (payload : Payload) :
    add p payload a = (.ok (.ofIndex a.size), a.grow p payload) := by
  rw [run_add, if_pos inside]

theorem add_outside (outside : ¬ p.index < a.size) (payload : Payload) : add p payload a = (.error ⟨p⟩, a) := by
  rw [run_add, if_neg outside]

theorem inside_of_node? {node : Node} (h : a.node? x = some node) : x.index < a.size := by
  obtain ⟨slot, found, -⟩ := Option.map_eq_some_iff.1 h
  exact (Array.getElem?_eq_some_iff.1 found).1

theorem inside_of_parent? (h : a.parent? x = some p) : x.index < a.size := by
  obtain ⟨node, found, -⟩ := Option.bind_eq_some_iff.1 h
  exact inside_of_node? found

theorem Sound.before (h : a.Sound) (parent : a.parent? x = some p) : p.index < x.index := by
  simp only [parent?, node?, slot?, Option.bind_eq_some_iff, Option.map_eq_some_iff] at parent
  obtain ⟨node, ⟨slot, found, rfl⟩, named⟩ := parent
  obtain ⟨inside, rfl⟩ := Array.getElem?_eq_some_iff.1 found
  have := h.ordered x.index inside
  rwa [named] at this

@[simp] theorem size_grow (a : Arena) (p : NodeId) (payload : Payload) : (a.grow p payload).size = a.size + 1 := by
  simp [grow, size]

theorem slot?_grow (a : Arena) (p : NodeId) (payload : Payload) (x : NodeId) :
    (a.grow p payload).slot? x =
      (if x.index = a.size then some ⟨⟨some p, payload⟩, #[]⟩ else a.slot? x).map fun slot =>
        if p.index = x.index then slot.adopt (.ofIndex a.size) else slot := by
  unfold grow slot? size
  rw [Array.getElem?_modify, Array.getElem?_push]
  split
  · rfl
  · exact Option.map_id'.symm

theorem node?_grow (a : Arena) (p : NodeId) (payload : Payload) (x : NodeId) :
    (a.grow p payload).node? x = if x.index = a.size then some ⟨some p, payload⟩ else a.node? x := by
  have same : (fun slot : Slot => (if p.index = x.index then slot.adopt (.ofIndex a.size) else slot).toNode) =
      (·.toNode) := by
    funext slot
    split <;> rfl
  unfold node?
  rw [slot?_grow, Option.map_map, Function.comp_def, same]
  split <;> rfl

theorem nodes_grow (a : Arena) (p : NodeId) (payload : Payload) :
    (a.grow p payload).slots.map (·.toNode) = (a.slots.map (·.toNode)).push ⟨some p, payload⟩ := by
  refine Array.ext_getElem? fun i => ?_
  unfold grow
  rw [Array.getElem?_map, Array.getElem?_modify, Array.getElem?_push, Array.getElem?_push, Array.getElem?_map,
    Array.size_map]
  split <;> split <;> simp [Slot.adopt, Function.comp_def]

theorem children_grow (inside : p.index < a.size) (payload : Payload) (x : NodeId) :
    (a.grow p payload).children x = a.children x ++ if p = x then [.ofIndex a.size] else [] := by
  by_cases here : p = x
  · subst here
    have slot : a.slot? p = some a.slots[p.index] := Array.getElem?_eq_getElem inside
    unfold children
    rw [slot?_grow, if_neg (Nat.ne_of_lt inside), slot]
    simp [Slot.adopt]
  · have other : p.index ≠ x.index := fun same => here (by rw [← p.ofIndex_index, same, x.ofIndex_index])
    rw [if_neg here, List.append_nil]
    unfold children
    rw [slot?_grow]
    simp only [if_neg other, Option.map_id']
    split
    · next new =>
      have none : a.slot? x = none := Array.getElem?_eq_none (Nat.le_of_eq new.symm)
      rw [none]
      rfl
    · rfl

theorem ids_grow (a : Arena) (p : NodeId) (payload : Payload) :
    (a.grow p payload).ids = a.ids ++ [.ofIndex a.size] := by
  unfold ids
  rw [size_grow, List.range_succ, List.map_append, List.map_singleton]

theorem mem_ids (few : a.size ≤ 0x100000000) : x ∈ a.ids ↔ x.index < a.size := by
  unfold ids
  constructor
  · intro h
    obtain ⟨n, hn, rfl⟩ := List.mem_map.1 h
    rw [NodeId.index_ofIndex (Nat.lt_of_lt_of_le (List.mem_range.1 hn) few)]
    exact List.mem_range.1 hn
  · intro h
    exact List.mem_map.2 ⟨x.index, List.mem_range.2 h, NodeId.ofIndex_index x⟩

theorem parent?_grow (room : a.size < 0x100000000) (p : NodeId) (payload : Payload) :
    (a.grow p payload).parent? (.ofIndex a.size) = some p ∧
      ∀ x ∈ a.ids, (a.grow p payload).parent? x = a.parent? x := by
  unfold parent?
  refine ⟨?_, fun x mem => ?_⟩
  · rw [node?_grow, if_pos (NodeId.index_ofIndex room)]
    rfl
  · rw [node?_grow, if_neg (Nat.ne_of_lt ((mem_ids (Nat.le_of_lt room)).1 mem))]

theorem slot?_single {payload : Payload} {slot : Slot} (found : (single payload).slot? x = some slot) :
    slot = ⟨⟨none, payload⟩, #[]⟩ := by
  obtain ⟨below, rfl⟩ := Array.getElem?_eq_some_iff.1 found
  have first : x.index = 0 := by simpa [single] using below
  simp [single, first]

theorem Sound.single (payload : Payload) : (single payload).Sound where
  ordered i h := by
    obtain rfl : i = 0 := by simpa [Arena.single] using h
    rfl
  listed id := by
    have parents : ∀ x, (Arena.single payload).parent? x = none := by
      intro x
      unfold parent? node?
      cases found : (Arena.single payload).slot? x with
      | none => rfl
      | some slot => simp [slot?_single found]
    have childless : (Arena.single payload).children id = [] := by
      unfold children
      cases found : (Arena.single payload).slot? id with
      | none => rfl
      | some slot => simp [slot?_single found]
    simp [childless, parents]

theorem Sound.grow (h : a.Sound) (inside : p.index < a.size) (room : a.size < 0x100000000) (payload : Payload) :
    (a.grow p payload).Sound where
  ordered i below := by
    have below' : i < a.size + 1 := by simpa [Arena.grow, size] using below
    have index : (NodeId.ofIndex i).index = i := NodeId.index_ofIndex (by omega)
    have node := a.node?_grow p payload (.ofIndex i)
    unfold node? slot? at node
    rw [index, Array.getElem?_eq_getElem below, Option.map_some] at node
    have parent := congrArg (Option.map (·.parent?)) node
    by_cases new : i = a.size
    · rw [if_pos new] at parent
      have named : (a.grow p payload).slots[i].parent? = some p := Option.some.inj parent
      rw [named]
      omega
    · have old : i < a.slots.size := by unfold size at below' new; omega
      rw [if_neg new, Array.getElem?_eq_getElem old] at parent
      have same : (a.grow p payload).slots[i].parent? = a.slots[i].parent? := Option.some.inj parent
      rw [same]
      exact h.ordered i old
  listed id := by
    obtain ⟨own, others⟩ := parent?_grow room p payload
    have old : a.ids.filter ((a.grow p payload).parent? · = some id) = a.ids.filter (a.parent? · = some id) :=
      List.filter_congr fun x mem => by rw [others x mem]
    rw [children_grow inside, ids_grow, List.filter_append, old, ← h.listed, List.filter_cons, own]
    by_cases here : p = id <;> simp [here]

theorem Sound.mapPayload (h : a.Sound) (f : NodeId → Payload → Payload) : (a.mapPayload f).Sound where
  ordered i below := by
    simp only [Arena.mapPayload, Array.size_mapIdx] at below
    simpa [Arena.mapPayload] using h.ordered i below
  listed id := by
    have slot : ∀ x, (a.mapPayload f).slot? x =
        (a.slot? x).map fun slot => { slot with payload := f (.ofIndex x.index) slot.payload } := by
      intro x
      unfold Arena.mapPayload slot?
      rw [Array.getElem?_mapIdx]
    have parents : ∀ x, (a.mapPayload f).parent? x = a.parent? x := by
      intro x
      unfold parent? node?
      rw [slot]
      cases a.slot? x <;> rfl
    have ids : (a.mapPayload f).ids = a.ids := by simp [Arena.ids, size, Arena.mapPayload]
    have children : (a.mapPayload f).children id = a.children id := by
      unfold Arena.children
      rw [slot]
      cases a.slot? id <;> rfl
    rw [children, ids, h.listed]
    simp only [parents]

end Arena
end SymbolCatalog
