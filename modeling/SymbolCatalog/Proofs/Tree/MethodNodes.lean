import SymbolCatalog.Proofs.Tree.Growth
import SymbolCatalog.Tree.Build
import SymbolCatalog.Tree.MethodView

/-! The nodes a method adds to a tree, and what they make it look like. Everything is found in the tree
that holds them from the list of these nodes. -/
namespace SymbolCatalog
open ExceptT
open Signature (MethodSource)

namespace Tree
variable {t t' : Tree} {parent : NodeId} {source : MethodSource} {parts : MethodParts}

def methodNodes (t : Tree) (parent : NodeId) (source : MethodSource) (parts : MethodParts) : List Node :=
  ⟨some parent, .method parts.method⟩ ::
    ⟨some (t.next 0), .modifierList source.modifiers source.annotations⟩ ::
    ⟨some (t.next 0), .parameterList⟩ ::
    ((source.parameterPayloads parts.parameterTypes).map (⟨some (t.next 2), ·⟩) ++
      [⟨some (t.next 0), .throwsList parts.throwsTypes⟩])

theorem methodNodesLength (t : Tree) (parent : NodeId) (source : MethodSource) (parts : MethodParts) :
    (t.methodNodes parent source parts).length = parts.parameterTypes.length + 4 := by
  simp [methodNodes, MethodSource.parameterPayloads]

theorem addsMethod (inside : parent.index < t.size) (source : MethodSource) (parts : MethodParts)
    (room : t.size + (parts.parameterTypes.length + 4) ≤ 0x100000000) :
    (Arena.addMethod parent source parts).Ends t.arena
      (fun id a => id = t.next 0 ∧ ∃ t' : Tree, t'.arena = a ∧ t.Appends (t.methodNodes parent source parts) t')
      fun _ => False := by
  have count : (source.parameterPayloads parts.parameterTypes).length = parts.parameterTypes.length :=
    List.length_mapIdx
  unfold Arena.addMethod
  refine endsBind ((addsChild inside (by omega) _).weaken ?_ fun _ => id)
  rintro _ _ ⟨rfl, t₁, rfl, method⟩
  have size₁ : t₁.size = t.size + 1 := method.size
  have known : (t.next 0).index = t.size := method.indexed Nat.zero_lt_one
  refine endsBind ((addsChild (by omega) (by omega) _).weaken ?_ fun _ => id)
  rintro _ _ ⟨-, t₂, rfl, modifiers⟩
  have size₂ : t₂.size = t₁.size + 1 := modifiers.size
  refine endsBind ((addsChild (by omega) (by omega) _).weaken ?_ fun _ => id)
  rintro list _ ⟨same, t₃, rfl, parameterList⟩
  have size₃ : t₃.size = t₂.size + 1 := parameterList.size
  have here : list = t.next 2 := by
    rw [same]
    unfold next
    rw [size₂, size₁]
  subst here
  have above : (t.next 2).index < t₃.size := by
    have index := (method.trans (modifiers.trans parameterList)).indexed (i := 2) (by simp)
    omega
  refine endsBind ((addsAll above (by omega)).weaken ?_ fun _ => id)
  rintro _ _ ⟨t₄, rfl, parameters⟩
  have size₄ : t₄.size = t₃.size + parts.parameterTypes.length := by
    rw [parameters.size, List.length_map, count]
  refine endsBind ((addsChild (by omega) (by omega) _).weaken ?_ fun _ => id)
  rintro _ _ ⟨-, t₅, rfl, throws⟩
  exact endsPure ⟨rfl, t₅, rfl,
    method.trans (modifiers.trans (parameterList.trans (parameters.trans throws)))⟩

theorem methodNodesChildren (x : NodeId) : childrenAmong x t.size (t.methodNodes parent source parts) =
    (if x = parent then [t.next 0] else []) ++
      ((if x = t.next 0 then [t.next 1, t.next 2] else []) ++
      ((if x = t.next 2 then (List.range parts.parameterTypes.length).map fun i => t.next (i + 3) else []) ++
      if x = t.next 0 then [t.next (parts.parameterTypes.length + 3)] else [])) := by
  have count : (source.parameterPayloads parts.parameterTypes).length = parts.parameterTypes.length :=
    List.length_mapIdx
  have place : ∀ i, NodeId.ofIndex (t.size + 1 + 1 + 1 + i) = t.next (i + 3) := by
    intro i
    unfold next
    rw [Nat.add_comm i 3, ← Nat.add_assoc]
  have parameters : (List.range' (t.size + 1 + 1 + 1) parts.parameterTypes.length).map NodeId.ofIndex =
      (List.range parts.parameterTypes.length).map fun i => t.next (i + 3) := by
    rw [List.range'_eq_map_range, List.map_map]
    exact List.map_congr_left fun i _ => place i
  unfold methodNodes
  rw [childrenAmongCons, childrenAmongCons, childrenAmongCons, childrenAmongAppend, childrenAmongSiblings,
    childrenAmongCons, childrenAmongNil, List.length_map, count, parameters, place, List.append_nil]
  simp only [Option.some.injEq, eq_comm (b := x)]
  by_cases method : x = t.next 0
  · simp only [if_pos method]
    rfl
  · simp only [if_neg method]
    rfl

section
variable (inside : parent.index < t.size) (added : t.Appends (t.methodNodes parent source parts) t')
include added

theorem addedIndex {i : Nat} (below : i < parts.parameterTypes.length + 4) : (t.next i).index = t.size + i :=
  added.indexed (by rwa [methodNodesLength])

theorem addedPayload {i : Nat} {node : Node} (found : (t.methodNodes parent source parts)[i]? = some node) :
    t'.payload? (t.next i) = some node.payload := by
  unfold payload?
  rw [added.newer found]
  rfl

theorem addedParameter {i : Nat} {type : TypeRef} (there : parts.parameterTypes[i]? = some type) :
    t'.payload? (t.next (i + 3)) = some (.parameter source.parameterNames[i]? type) := by
  have below := (List.getElem?_eq_some_iff.mp there).1
  have found : (t.methodNodes parent source parts)[i + 3]? =
      some ⟨some (t.next 2), .parameter source.parameterNames[i]? type⟩ := by
    unfold methodNodes MethodSource.parameterPayloads
    rw [List.getElem?_cons_succ, List.getElem?_cons_succ, List.getElem?_cons_succ,
      List.getElem?_append_left (by simpa using below)]
    simp [there]
  exact addedPayload added found

theorem addedThrows : t'.payload? (t.next (parts.parameterTypes.length + 3)) = some (.throwsList parts.throwsTypes) := by
  have found : (t.methodNodes parent source parts)[parts.parameterTypes.length + 3]? =
      some ⟨some (t.next 0), .throwsList parts.throwsTypes⟩ := by
    unfold methodNodes MethodSource.parameterPayloads
    simp
  exact addedPayload added found

theorem addedNew {x : NodeId} (older : x.index < t.size) {i : Nat} (below : i < parts.parameterTypes.length + 4) :
    x ≠ t.next i := by
  intro same
  have index := addedIndex added below
  rw [← same] at index
  omega

theorem addedApart {i j : Nat} (below : i < parts.parameterTypes.length + 4)
    (below' : j < parts.parameterTypes.length + 4) (ne : i ≠ j) : t.next i ≠ t.next j := by
  intro same
  have index := addedIndex added below
  rw [same, addedIndex added below'] at index
  omega

theorem olderChildren {x : NodeId} (older : x.index < t.size) :
    t'.children x = if x = parent then t.children x ++ [t.next 0] else t.children x := by
  have first : x ≠ t.next 0 := addedNew added older (by omega)
  have third : x ≠ t.next 2 := addedNew added older (by omega)
  rw [added.children, methodNodesChildren, if_neg first, if_neg third, if_neg first]
  by_cases own : x = parent <;> simp [own]

include inside

theorem methodChildren :
    t'.children (t.next 0) = [t.next 1, t.next 2, t.next (parts.parameterTypes.length + 3)] := by
  have outside := addedIndex added (i := 0) (by omega)
  have above : t.next 0 ≠ parent := (addedNew added inside (by omega)).symm
  have apart : t.next 0 ≠ t.next 2 := addedApart added (by omega) (by omega) (by decide)
  rw [added.children, methodNodesChildren, childrenOutside (by omega), if_neg above, if_neg apart, if_pos rfl,
    if_pos rfl]
  rfl

theorem listChildren :
    t'.children (t.next 2) = (List.range parts.parameterTypes.length).map fun i => t.next (i + 3) := by
  have outside := addedIndex added (i := 2) (by omega)
  have above : t.next 2 ≠ parent := (addedNew added inside (by omega)).symm
  have apart : t.next 2 ≠ t.next 0 := addedApart added (by omega) (by omega) (by decide)
  rw [added.children, methodNodesChildren, childrenOutside (by omega), if_neg above, if_neg apart, if_neg apart,
    if_pos rfl]
  simp

theorem methodLists : t'.findChild? (t.next 0) .modifierList = some (t.next 1) ∧
    t'.findChild? (t.next 0) .parameterList = some (t.next 2) ∧
    t'.findChild? (t.next 0) .throwsList = some (t.next (parts.parameterTypes.length + 3)) := by
  have kind : ∀ {id payload}, t'.payload? id = some payload → t'.kind? id = some payload.kind :=
    fun there => congrArg (Option.map Payload.kind) there
  have modifiers := kind (addedPayload added (i := 1) rfl)
  have list := kind (addedPayload added (i := 2) rfl)
  have throws := kind (addedThrows added)
  unfold findChild?
  rw [methodChildren inside added]
  simp [modifiers, list, throws, Payload.kind]

theorem methodModifiers (m : Method) :
    (MethodView.mk t' (t.next 0) m).modifiers? = some (source.modifiers, source.annotations) := by
  unfold MethodView.modifiers?
  dsimp only
  rw [(methodLists inside added).1, Option.bind_eq_bind, Option.bind_some, addedPayload added rfl]
  rfl

theorem methodThrows (m : Method) : (MethodView.mk t' (t.next 0) m).throwsTypes = parts.throwsTypes := by
  unfold MethodView.throwsTypes
  dsimp only
  rw [(methodLists inside added).2.2, Option.bind_some, addedThrows added]

theorem methodParameter (m : Method) (i : Nat) : (MethodView.mk t' (t.next 0) m).parameter i =
    match parts.parameterTypes[i]? with
    | some type => .ok ⟨t.next (i + 3), source.parameterNames[i]?, type⟩
    | none => .error (.outOfRange i parts.parameterTypes.length) := by
  have ids : (MethodView.mk t' (t.next 0) m).parameterIds =
      .ok ((List.range parts.parameterTypes.length).map fun i => t.next (i + 3)) := by
    unfold MethodView.parameterIds
    dsimp only
    rw [(methodLists inside added).2.1, ← listChildren inside added]
  unfold MethodView.parameter
  rw [ids]
  cases there : parts.parameterTypes[i]? with
  | none =>
    have beyond := List.getElem?_eq_none_iff.mp there
    simp [bind, Except.bind, beyond, throw, throwThe, MonadExceptOf.throw]
  | some type =>
    have below := (List.getElem?_eq_some_iff.mp there).1
    simp [bind, Except.bind, below, MethodView.parameterAt?, addedParameter added there, pure, Except.pure]

end
end Tree
end SymbolCatalog
