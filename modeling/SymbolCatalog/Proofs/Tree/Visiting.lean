import Mathlib.Logic.Relation
import SymbolCatalog.Proofs.Tree.Growth

/-! Trees as they are built node by node and visited with a stack. The subtrees of the nodes that
wait, one after the other, are what is still to come. -/
namespace SymbolCatalog
open ExceptT

def Arena.Descends (a : Arena) : NodeId → NodeId → Prop := Relation.TransGen fun x p => a.parent? x = some p

namespace Tree
variable {t t' : Tree} {p x : NodeId}

theorem Appends.child {payload : Payload} (appended : t.Appends [⟨some p, payload⟩] t') (x : NodeId) :
    t'.children x = t.children x ++ if p = x then [t.next 0] else [] := by
  rw [appended.children, childrenAmongCons, childrenAmongNil, List.append_nil]
  simp [next]

theorem addsCalls {calls : List (NodeId × Payload)}
    (known : ∀ i call, calls[i]? = some call → call.1.index < t.size + i)
    (few : t.size + calls.length ≤ 0x100000000) : (Arena.addAll calls).Ends t.arena
      (fun ids a => ids = (List.range calls.length).map t.next ∧ ∃ t' : Tree, t'.arena = a ∧
        t.Appends (calls.map fun call => ⟨some call.1, call.2⟩) t' ∧
        ∀ x, t'.children x = t.children x ++ ((calls.zip ids).filter (·.1.1 = x)).map (·.2)) fun _ => False := by
  induction calls generalizing t with
  | nil => exact endsPure ⟨rfl, t, rfl, (List.append_nil _).symm, by simp⟩
  | cons call calls ih =>
    obtain ⟨p, payload⟩ := call
    rw [List.length_cons] at few
    unfold Arena.addAll
    rw [List.mapM_cons]
    refine endsBind ((addsChild (known 0 _ rfl) (by omega) payload).weaken ?_ fun _ => id)
    rintro _ _ ⟨rfl, t₁, rfl, first⟩
    have size : t₁.size = t.size + 1 := first.size
    have later : ∀ i, t₁.next i = t.next (i + 1) := by
      intro i
      unfold next
      rw [size, Nat.add_right_comm, Nat.add_assoc]
    have known₁ : ∀ i call, calls[i]? = some call → call.1.index < t₁.size + i := by
      intro i call nth
      have before := known (i + 1) call nth
      omega
    refine endsBind ((ih known₁ (by omega)).weaken ?_ fun _ => id)
    rintro _ _ ⟨same, t', rfl, rest, children⟩
    refine endsPure ⟨?_, t', rfl, first.trans rest, fun x => ?_⟩
    · rw [same, List.length_cons, List.range_succ_eq_map, List.map_cons, List.map_map]
      exact congrArg _ (List.map_congr_left fun i _ => later i)
    · rw [children, first.child, List.zip_cons_cons, List.filter_cons, List.append_assoc]
      by_cases own : p = x <;> simp [own]

/-! What stands below what. -/

theorem descendsAfter {a : NodeId} (h : t.arena.Descends x a) : a.index < x.index := by
  induction h with
  | single parent => exact index_lt_of_parent? parent
  | tail _ parent ih => exact Nat.lt_trans (index_lt_of_parent? parent) ih

theorem inSubtree {a : NodeId} : x ∈ t.preorderFrom a ↔ x = a ∨ t.arena.Descends x a := by
  constructor
  · intro inside
    induction x using t.ascend with
    | step x ih =>
      rcases parentInside inside with same | ⟨p, parent, up⟩
      · exact .inl same
      · rcases ih p parent up with same | above
        · exact .inr (.single (same ▸ parent))
        · exact .inr (.head parent above)
  · rintro (rfl | below)
    · exact t.memSelf x
    · induction below using Relation.TransGen.head_induction_on with
      | single parent => exact childInside (t.memSelf a) (mem_children.2 ⟨childInTree parent, parent⟩)
      | head parent _ ih => exact childInside ih (mem_children.2 ⟨childInTree parent, parent⟩)

theorem belowDescends {a : NodeId} : x ∈ (t.children a).flatMap t.preorderFrom ↔ t.arena.Descends x a := by
  have subtree := inSubtree (t := t) (x := x) (a := a)
  rw [preorderFrom_eq, List.mem_cons] at subtree
  constructor
  · intro below
    rcases subtree.mp (.inr below) with same | descends
    · obtain ⟨child, mem, inside⟩ := List.mem_flatMap.mp below
      have after := index_lt_of_mem_children mem
      have more := notBefore inside
      rw [same] at more
      omega
    · exact descends
  · intro descends
    have after := descendsAfter descends
    refine (subtree.mpr (.inr descends)).resolve_left fun same => ?_
    rw [same] at after
    omega

theorem listedOnce {id : NodeId} (parent : t.parent? id = some p) : (t.ids.flatMap t.children).count id = 1 := by
  have nodup : (t.ids.flatMap t.children).Nodup := by
    refine List.nodup_flatMap.mpr ⟨fun a _ => t.childrenNodup a, t.idsNodup.imp ?_⟩
    intro a b ne x inA inB
    exact ne (Option.some.inj ((mem_children.mp inA).2.symm.trans (mem_children.mp inB).2))
  have own := mem_children.mpr ⟨childInTree parent, parent⟩
  exact List.count_eq_one_of_mem nodup (List.mem_flatMap.mpr ⟨p, mem_ids.mpr (parentInTree parent), own⟩)

/-! The methods among the nodes. -/

theorem methodKind (id : NodeId) :
    (t.kind? id = some .method ∨ t.kind? id = some .annotationMethod) ↔ ∃ m, t.method? id = some m := by
  unfold kind? method?
  cases t.payload? id with
  | none => simp
  | some payload =>
    cases payload with
    | method m => by_cases annotation : m.flags.isAnnotationMethod <;> simp [Payload.kind, annotation]
    | _ => simp [Payload.kind]

theorem methodPayload {id : NodeId} {m : Method} (there : t.method? id = some m) :
    t.payload? id = some (.method m) := by
  unfold method? at there
  split at there
  · next payload =>
    cases there
    exact payload
  · cases there

theorem methodsAmong (t : Tree) (ids : List NodeId) :
    (ids.filterMap fun id => (t.method? id).map (id, ·)).map (·.1) =
      ids.filter fun id => t.kind? id = some .method ∨ t.kind? id = some .annotationMethod := by
  induction ids with
  | nil => rfl
  | cons id ids ih =>
    cases there : t.method? id with
    | none => rw [List.filterMap_cons_none (by simp [there]), ih, List.filter_cons_of_neg (by simp [methodKind, there])]
    | some m =>
      rw [List.filterMap_cons_some (by rw [there]; rfl), List.map_cons, ih,
        List.filter_cons_of_pos (by simp [methodKind, there])]

end Tree

namespace Arena

structure Grown (root : Payload) (calls : List (NodeId × Payload)) (ids : List NodeId) (a : Arena) : Prop where
  numbered : ids.map (·.index) = List.range' 1 calls.length
  nodes : (a.slots.map (·.toNode)).toList = ⟨none, root⟩ :: calls.map fun call => ⟨some call.1, call.2⟩
  children : ∀ x, a.children x = ((calls.zip ids).filter (·.1.1 = x)).map (·.2)

structure Visited (a : Arena) : Prop where
  parent : ∀ id, id.index < a.size → id ≠ .root → ∃ p, a.parent? id = some p ∧ p.index < id.index
  -- a node stands once in all lists of children, in that of its parent
  listed : ∀ id p, a.parent? id = some p → id ∈ a.children p ∧ (a.ids.flatMap a.children).count id = 1
  ascending : ∀ id, (a.children id).Pairwise (·.index < ·.index)
  -- the stack is empty after as many steps as there are nodes, and not before
  steps : ∀ n, (a.visit n [.root]).1 = a.iter.take n ∧ ((a.visit n [.root]).2 = [] ↔ a.size ≤ n)
  once : a.iter.Perm a.ids
  -- all that descends from a node comes right behind it
  block : ∀ id, id.index < a.size → ∃ before below after, a.iter = before ++ id :: (below ++ after) ∧
    ∀ x, x ∈ below ↔ a.Descends x id
  siblings : ∀ id, a.iter.filter (a.parent? · = some id) = a.children id
  methods : a.methods.map (·.1) =
    a.iter.filter fun id => a.kind? id = some .method ∨ a.kind? id = some .annotationMethod
  carried : ∀ entry ∈ a.methods, a.payload? entry.1 = some (.method entry.2)

end Arena

theorem Tree.visitedArena (t : Tree) : t.arena.Visited where
  parent id inside other := by
    obtain ⟨p, parent⟩ := hasParent inside other
    exact ⟨p, parent, index_lt_of_parent? parent⟩
  listed id p parent := ⟨mem_children.mpr ⟨childInTree parent, parent⟩, listedOnce parent⟩
  ascending := t.childrenAscend
  steps n := t.iterPreorder ▸ t.visitSteps n
  once := t.iterPreorder ▸ t.preorderPerm
  block id inside := by
    obtain ⟨before, after, whole⟩ := subtreeBlock inside
    refine ⟨before, (t.children id).flatMap t.preorderFrom, after, ?_, fun x => belowDescends⟩
    rw [iterPreorder, ← whole, preorderFrom_eq, List.append_assoc, List.cons_append]
  siblings id := t.iterPreorder ▸ t.childrenInPreorder id
  methods := t.methodsAmong t.arena.iter
  carried entry mem := by
    obtain ⟨id, -, found⟩ := List.mem_filterMap.mp mem
    obtain ⟨m, there, same⟩ := Option.map_eq_some_iff.mp found
    subst same
    exact methodPayload there

namespace Arena

/-- Calls that name parents which are there build an arena in which each node but the root has one place
among the children of a node before it, in the order of the calls, as long as there are ids. Visiting
with a stack ends after as many steps as there are nodes and passes all of them once, each with what
descends from it right behind and siblings in their order; the methods are those passed on this way. -/
theorem grownVisited (root : Payload) {calls : List (NodeId × Payload)}
    (known : ∀ (i : Nat) (call : NodeId × Payload), calls[i]? = some call → call.1.index ≤ i)
    (few : calls.length < 0x100000000) :
    ∃ ids a, addAll calls (single root) = (.ok ids, a) ∧ a.size = calls.length + 1 ∧
      Grown root calls ids a ∧ a.Visited := by
  have size : (Tree.single root).size = 1 := rfl
  have within : ∀ i call, calls[i]? = some call → call.1.index < (Tree.single root).size + i := by
    intro i call nth
    have before := known i call nth
    omega
  obtain ⟨ids, _, run, same, t, rfl, nodes, children⟩ := (Tree.addsCalls within (by omega)).succeeds
  have length : t.size = calls.length + 1 := by rw [nodes.size, List.length_map, size, Nat.add_comm]
  refine ⟨ids, t.arena, run, length, ⟨?_, ?_, fun x => ?_⟩, t.visitedArena⟩
  · rw [same, List.map_map, List.range'_eq_map_range]
    refine List.map_congr_left fun i mem => ?_
    exact nodes.indexed (by simpa using mem)
  · have list : t.nodes.toList = (Tree.single root).nodes.toList ++ _ := nodes
    rwa [Tree.singleNodes] at list
  · have childless : (Tree.single root).children x = [] := by
      rw [Tree.childrenOfNodes, Tree.singleNodes]
      exact Tree.childrenAmongCons x 0 ⟨none, root⟩ []
    exact (children x).trans (by rw [childless, List.nil_append])

def turnCalls : List (NodeId × Payload) :=
  let method : Method := ⟨some "f", ⟨0⟩, .void, none⟩
  [(.root, .classDecl "A" 0), (.root, .classDecl "B" 0), (.ofIndex 1, .method method), (.ofIndex 2, .parameterList),
    (.ofIndex 1, .classDecl "C" 0), (.ofIndex 5, .method { method with flags := ⟨MethodFlags.annotationBit⟩ })]

theorem turnsVisited :
    (∀ (i : Nat) (call : NodeId × Payload), turnCalls[i]? = some call → call.1.index ≤ i) ∧
    turnCalls.length < 0x100000000 ∧
    ∃ ids a, addAll turnCalls (single (.file none)) = (.ok ids, a) ∧ Grown (.file none) turnCalls ids a ∧
      a.Visited ∧ a.iter = [.ofIndex 0, .ofIndex 1, .ofIndex 3, .ofIndex 5, .ofIndex 6, .ofIndex 2, .ofIndex 4] := by
  have known : ∀ (i : Nat) (call : NodeId × Payload), turnCalls[i]? = some call → call.1.index ≤ i := by
    have within : ∀ entry ∈ turnCalls.zipIdx, entry.1.1.index ≤ entry.2 := by decide
    exact fun i call nth => within (call, i) (List.mem_zipIdx_iff_getElem?.mpr nth)
  have few : turnCalls.length < 0x100000000 := by decide
  have order : (addAll turnCalls (single (.file none))).2.iter = [.ofIndex 0, .ofIndex 1, .ofIndex 3, .ofIndex 5,
      .ofIndex 6, .ofIndex 2, .ofIndex 4] := by decide +kernel
  obtain ⟨ids, a, run, -, grown, visited⟩ := grownVisited (.file none) known few
  rw [run] at order
  exact ⟨known, few, ids, a, run, grown, visited, order⟩

end Arena
end SymbolCatalog
