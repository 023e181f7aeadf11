import Mathlib.Data.Set.Function
import SymbolCatalog.Proofs.Tree.Agreement

/-! A tree is read back with its variadic types settled: only arrays stay variadic. Trees are compared
with what was read once they are settled as well, and a settled tree agrees with all that is read of it. -/
namespace SymbolCatalog

theorem TypeRef.arraySettled (t : TypeRef) (varargs : t.settled.varargs) : 0 < t.settled.depth := by
  simp only [TypeRef.settled, TypeRef.ofParts, Bool.and_eq_true, decide_eq_true_eq] at varargs
  exact varargs.2

namespace Payload

theorem arraysSettled (p : Payload) : ∀ t ∈ p.settled.types, t.varargs → 0 < t.depth := by
  intro t mem
  cases p with
  | field name type flags initializer? =>
    cases List.mem_singleton.1 mem
    exact type.arraySettled
  | method m =>
    cases List.mem_singleton.1 mem
    exact m.returnType.arraySettled
  | parameter name? type =>
    cases List.mem_singleton.1 mem
    exact type.arraySettled
  | throwsList types =>
    obtain ⟨type, -, same⟩ := List.mem_map.1 mem
    exact same ▸ type.arraySettled
  | file | classDecl | parameterList | modifierList => exact absurd mem List.not_mem_nil

theorem settledTwice (p : Payload) : p.settled.settled = p.settled := settledArrays p.arraysSettled

theorem settledDefault (p : Payload) (text : String) : (p.withDefault text).settled = p.settled.withDefault text := by
  cases p <;> rfl

theorem typesDefault (p : Payload) (text : String) : (p.withDefault text).types = p.types := by
  cases p <;> rfl

end Payload

namespace Tree
variable {t copy read : Tree} {texts : List String}

def settled (t : Tree) : Tree := t.mapPayload fun _ => Payload.settled

theorem payloadSettled (t : Tree) (id : NodeId) : t.settled.payload? id = (t.payload? id).map Payload.settled :=
  payloadMapped t id

theorem settledVarargs (t : Tree) : t.settled.ArrayVarargs := by
  intro id payload there
  rw [payloadSettled, Option.map_eq_some_iff] at there
  obtain ⟨p, -, same⟩ := there
  exact same ▸ p.arraysSettled

theorem settledSame (arrays : t.ArrayVarargs) : t.settled = t := by
  refine sameNodes (sizeMapped t) fun id inside => ?_
  rw [settled, nodeMapped, nodeThere inside, Option.map_some,
    Payload.settledArrays (arrays id _ (payloadThere inside))]

theorem settledSetDefault (t : Tree) (node : NodeId) (text : String) :
    (t.setDefault node text).settled = t.settled.setDefault node text := by
  unfold settled setDefault mapPayload Arena.mapPayload
  simp only [Array.mapIdx_mapIdx, mk.injEq, Arena.mk.injEq]
  refine congrArg (t.arena.slots.mapIdx ·) (funext fun i => funext fun n => ?_)
  dsimp only [Function.comp_apply]
  split
  · rw [Payload.settledDefault]
  · rfl

theorem ArrayVarargs.setDefault (arrays : t.ArrayVarargs) (node : NodeId) (text : String) :
    (t.setDefault node text).ArrayVarargs := by
  rw [← settledSame arrays, ← settledSetDefault]
  exact settledVarargs _

theorem restoredSettled (t : Tree) : t.settled.preorder.map t.settled.restored = t.preorder.map t.restored := by
  have order : t.settled.preorder = t.preorder := preorderMapped t
  rw [order]
  refine List.map_congr_left fun id mem => ?_
  have place : t.settled.place = t.place := by
    unfold place
    rw [order]
  have payload := payloadThere (memPreorder.1 mem)
  unfold restored
  rw [place, payloadSettled, payload, settled, parentMapped, Option.map_some, Option.getD_some, Option.getD_some,
    Payload.settledTwice]

theorem settledRead (nodes : read.nodes.toList = t.preorder.map t.restored) : read.settled = read := by
  refine settledSame (arraysAll fun p mem => ?_)
  rw [nodes, List.map_map] at mem
  obtain ⟨id, -, same⟩ := List.mem_map.1 mem
  exact same ▸ Payload.arraysSettled _

theorem agreesRead (texts : List String) (nodes : read.nodes.toList = t.preorder.map t.restored) :
    Agrees texts t.settled read :=
  agreesDecoded texts t.settledVarargs (nodes.trans t.restoredSettled.symm)

/- Copies of one tree, of which the first has no other default values, agree with each other: the ids of
the first can be told from each other, so those of the tree are found again. -/
theorem AgreesBy.across {rename rename' : NodeId → NodeId} (first : AgreesBy rename [] t read)
    (second : AgreesBy rename' texts t copy) : Agrees texts read copy := by
  have apart : Set.InjOn rename {id | id ∈ t.preorder} := by
    have distinct := read.preorderNodup
    rw [first.order] at distinct
    exact fun a ha b hb same => List.inj_on_of_nodup_map distinct ha hb same
  let back := Function.invFunOn rename {id | id ∈ t.preorder}
  have found : ∀ id ∈ t.preorder, back (rename id) = id := fun id mem => apart.leftInvOn_invFunOn mem
  have named : ∀ id ∈ read.preorder, ∃ old ∈ t.preorder, rename old = id := fun id mem =>
    List.mem_map.1 (first.order ▸ mem)
  refine ⟨rename' ∘ back, ?_, fun id among => ?_, fun id among => ?_, fun id payload there => ?_⟩
  · rw [second.order, first.order, List.map_map]
    exact List.map_congr_left fun id mem => congrArg rename' (found id mem).symm
  · obtain ⟨old, mem, rfl⟩ := named id among
    rw [Function.comp_apply, found old mem, second.parent old mem, first.parent old mem, Option.map_map]
    refine Option.map_congr fun p parent => congrArg rename' (found p ?_).symm
    exact memPreorder.2 (parentInTree parent)
  · obtain ⟨old, mem, rfl⟩ := named id among
    rw [Function.comp_apply, found old mem, second.children old mem, first.children old mem, List.map_map]
    refine List.map_congr_left fun c child => congrArg rename' (found c ?_).symm
    exact memPreorder.2 (mem_children.1 child).1
  · obtain ⟨old, mem, rfl⟩ := named id (memPreorder.2 (payloadInTree there))
    have own := payloadThere (memPreorder.1 mem)
    obtain ⟨other, shown, same | ⟨text, none, -⟩⟩ := first.payload old _ own
    · cases shown.symm.trans there
      rw [Function.comp_apply, found old mem, same]
      exact second.payload old _ own
    · cases none

theorem Agrees.ofRead (h : Agrees texts t.settled copy) (nodes : read.nodes.toList = t.preorder.map t.restored) :
    Agrees texts read copy := by
  obtain ⟨rename, first⟩ := agreesRead [] nodes
  obtain ⟨rename', second⟩ := h
  exact first.across second

theorem Agrees.arrayVarargs (h : Agrees texts t copy) (arrays : t.ArrayVarargs) : copy.ArrayVarargs := by
  obtain ⟨rename, by_⟩ := h
  intro id payload there
  have among := memPreorder.2 (payloadInTree there)
  rw [by_.order] at among
  obtain ⟨old, mem, rfl⟩ := List.mem_map.1 among
  have own := payloadThere (memPreorder.1 mem)
  obtain ⟨other, found, is⟩ := by_.payload old _ own
  cases found.symm.trans there
  rcases is with same | ⟨text, -, same⟩
  · exact same ▸ arrays old _ own
  · rw [same, Payload.typesDefault]
    exact arrays old _ own

end Tree
end SymbolCatalog
