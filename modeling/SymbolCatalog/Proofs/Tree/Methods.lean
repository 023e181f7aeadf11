import SymbolCatalog.Proofs.Tree.MethodNodes
import SymbolCatalog.Proofs.Tree.Parts

/-! A method is added to a tree whole or not at all. What is found of it in the tree is what its
description says, and the rest of the tree is as it was. -/
namespace SymbolCatalog
open Signature (FormatError MethodSource MethodTypes Trace descriptorTypes signatureTypes)

structure MethodView.Describes (source : MethodSource) (types : MethodTypes) (built : BuiltMethod) (v : MethodView) :
    Prop where
  name : v.method.name? = source.name?
  result : v.method.returnType = types.result
  default : v.method.default? = none
  generic : v.method.flags.isGeneric ↔ built.trace.origin = .genericSignature
  -- all other bits
  flags : v.method.flags.withGeneric false = source.flags.withGeneric false
  modifiers : v.modifiers? = some (source.modifiers, source.annotations)
  plain : (built.parameterTypes.map fun type => { type with varargs := false }) = types.parameters
  variadic : ∀ i type, built.parameterTypes[i]? = some type →
    (type.varargs ↔ i + 1 = built.parameterTypes.length ∧ source.flags.isVarargs ∧ 0 < type.depth)
  parameter : ∀ i, match built.parameterTypes[i]? with
    | some type => ∃ id, v.parameter i = .ok ⟨id, source.parameterNames[i]?, type⟩
    | none => v.parameter i = .error (.outOfRange i built.parameterTypes.length)
  throws : v.throwsTypes = if built.trace.origin = .genericSignature ∧ types.throwsTypes ≠ [] then types.throwsTypes
    else source.throwsRefs
  typeParameters : built.typeParameters = types.typeParameters

namespace Tree
variable {t t' : Tree} {parent : NodeId} {source : MethodSource} {types : MethodTypes} {trace : Trace}

theorem methodDescribed (inside : parent.index < t.size) (given : source.Gives types trace.origin)
    (added : t.Appends (t.methodNodes parent source (source.parts types trace)) t') :
    MethodView.Describes source types
      ⟨t.next 0, (source.parts types trace).parameterTypes, types.typeParameters, trace⟩
      ⟨t', t.next 0, (source.parts types trace).method⟩ where
  name := rfl
  result := rfl
  default := rfl
  generic := by
    have origin := source.flags.isGenericWith (trace.origin = .genericSignature)
    exact Iff.trans (by rw [← origin]; rfl) decide_eq_true_iff
  flags := source.flags.withGenericTwice _
  modifiers := methodModifiers inside added _
  plain := MethodSource.partsPlain given.plain
  variadic _ _ := MethodSource.partsVariadic given.plain
  parameter i := by
    rw [methodParameter inside added]
    cases (source.parts types trace).parameterTypes[i]? with
    | none => rfl
    | some type => exact ⟨_, rfl⟩
  throws := (methodThrows inside added _).trans (MethodSource.partsThrows given)
  typeParameters := rfl

structure Gains (t : Tree) (parent : NodeId) (source : MethodSource) (types : MethodTypes) (built : BuiltMethod)
    (t' : Tree) : Prop where
  id : built.id.index = t.size
  size : t'.size = t.size + (built.parameterTypes.length + 4)
  nodes : ∀ x, x.index < t.size → t'.node? x = t.node? x
  children : ∀ x, x.index < t.size →
    t'.children x = if x = parent then t.children x ++ [built.id] else t.children x
  parts : ∃ modifiers list throws, t'.children built.id = [modifiers, list, throws] ∧
    t'.payload? modifiers = some (.modifierList source.modifiers source.annotations) ∧
    t'.payload? list = some .parameterList ∧ (t'.children list).length = built.parameterTypes.length ∧
    t'.kind? throws = some .throwsList
  described : ∃ v, MethodView.of t' built.id = .ok v ∧ v.Describes source types built
  arity : ∀ raw, descriptorTypes source.descriptor = .ok raw → built.parameterTypes.length = raw.parameters.length

theorem methodGained (inside : parent.index < t.size) (given : source.Gives types trace.origin)
    (added : t.Appends (t.methodNodes parent source (source.parts types trace)) t') :
    t.Gains parent source types ⟨t.next 0, (source.parts types trace).parameterTypes, types.typeParameters, trace⟩ t' where
  id := addedIndex added (Nat.zero_lt_succ _)
  size := by rw [added.size, methodNodesLength]
  nodes _ := added.older
  children _ := olderChildren added
  parts := by
    have modifiers := addedPayload added (i := 1) rfl
    have list := addedPayload added (i := 2) rfl
    have throws := congrArg (Option.map Payload.kind) (addedThrows added)
    refine ⟨_, _, _, methodChildren inside added, modifiers, list, ?_, throws⟩
    rw [listChildren inside added, List.length_map, List.length_range]
  described := by
    refine ⟨_, ?_, methodDescribed inside given added⟩
    unfold MethodView.of method?
    rw [addedPayload added rfl]
  arity raw read := (MethodSource.partsCount given.plain).trans (given.arity read)

theorem buildCases {a a' : Arena} {table table' : NameTable} {answer : Except BuildError BuiltMethod}
    (built : a.buildMethod parent table source = (answer, a', table')) :
    match answer with
    | .ok built => ∃ types, source.types = .ok (types, built.trace) ∧
        Arena.addMethod parent source (source.parts types built.trace) a = (.ok built.id, a') ∧
        built = ⟨built.id, (source.parts types built.trace).parameterTypes, types.typeParameters, built.trace⟩
    | .error (.malformed fault) => source.types = .error fault ∧ a' = a ∧ table' = table
    | .error (.unknownParent e) => ∃ types trace, source.types = .ok (types, trace) ∧
        Arena.addMethod parent source (source.parts types trace) a = (.error e, a') := by
  unfold Arena.buildMethod at built
  cases typed : source.types with
  | error fault =>
    rw [typed] at built
    cases built
    exact ⟨rfl, rfl, rfl⟩
  | ok r =>
    obtain ⟨types, trace⟩ := r
    rw [typed] at built
    dsimp only at built
    rcases added : Arena.addMethod parent source (source.parts types trace) a with ⟨e | id, after⟩
    · rw [added] at built
      cases built
      exact ⟨types, trace, rfl, added⟩
    · rw [added] at built
      cases built
      exact ⟨types, rfl, added, rfl⟩

theorem unsignedBuilt {a : Arena} {table : NameTable} (typed : source.types = .ok (types, trace))
    (origin : trace.origin = .rawDescriptor) : a.buildMethod parent table source.unsigned =
      Prod.map (Except.map fun built => { built with trace := ⟨.rawDescriptor, none⟩ }) id
        (a.buildMethod parent table source) := by
  have given := MethodSource.typesGiven typed
  rw [origin] at given
  have parts : source.unsigned.parts types ⟨.rawDescriptor, none⟩ = source.parts types trace := by
    unfold MethodSource.parts
    rw [origin]
    rfl
  have added : Arena.addMethod parent source.unsigned = Arena.addMethod parent source := rfl
  unfold Arena.buildMethod
  rw [typed, MethodSource.unsignedTypes given.2]
  dsimp only
  rw [parts, added]
  rcases Arena.addMethod parent source (source.parts types trace) a with ⟨e | id, after⟩ <;> rfl

def variadicSource : MethodSource where
  name? := some "f"
  flags := .pack false true false false false
  descriptor := "(I[La/B;)V"
  signature? := some "(I[La/B<*>;)V^La/E;"
  parameterNames := ["count"]
  throws? := some ["a/F"]
  modifiers := 9
  annotations := []

/-- A method whose descriptor does not read is refused for it if no signature reads instead. One that does
gives the method its types, and nothing tells of the descriptor. -/
theorem malformedDescriptorRefused (a : Arena) (parent : NodeId) (table : NameTable) {source : MethodSource}
    {fault : FormatError} (malformed : descriptorTypes source.descriptor = .error fault) :
    (a.buildMethod parent table source = (.error (.malformed fault), a, table) ↔
      ∀ signature types, source.signature? = some signature → signatureTypes signature ≠ .ok types) ∧
    ∀ signature types, source.signature? = some signature → signatureTypes signature = .ok types →
      source.types = .ok (types, ⟨.genericSignature, none⟩) := by
  have signed : ∀ signature types, source.signature? = some signature → signatureTypes signature = .ok types →
      source.Signed types := by
    intro signature types given read
    exact ⟨signature, given, read, fun raw there => by cases malformed.symm.trans there⟩
  refine ⟨⟨?_, ?_⟩, fun signature types given read => MethodSource.typesSigned (signed signature types given read)⟩
  · intro refused signature types given read
    have unsigned := (MethodSource.typesRefused.mp (buildCases refused).1).1
    exact unsigned types (signed signature types given read)
  · intro unread
    have unsigned : ∀ types, ¬ source.Signed types := by
      rintro types ⟨signature, given, read, -⟩
      exact unread signature types given read
    have refused := MethodSource.typesRefused.mpr ⟨unsigned, malformed⟩
    unfold Arena.buildMethod
    rw [refused]

def brokenSource (signature : String) : MethodSource where
  name? := some "f"
  flags := ⟨0⟩
  descriptor := "(La/B)V"
  signature? := some signature
  parameterNames := []
  throws? := none
  modifiers := 0
  annotations := []

theorem brokenMethodRefused :
    let fault : FormatError := ⟨"(La/B)V", 7, .unterminatedName⟩
    descriptorTypes "(La/B)V" = .error fault ∧
      (ofFile none).arena.buildMethod .root .empty (brokenSource "also broken") =
        (.error (.malformed fault), (ofFile none).arena, .empty) := by
  intro fault
  have malformed : descriptorTypes (brokenSource "also broken").descriptor = .error fault := by decide +kernel
  refine ⟨malformed, (malformedDescriptorRefused _ _ _ malformed).1.mpr ?_⟩
  intro signature types given read
  have broken : (signatureTypes "also broken").isOk = false := by decide +kernel
  cases given
  rw [read] at broken
  cases broken

theorem brokenMethodBuilt : (descriptorTypes "(La/B)V").isOk = false ∧
    ((ofFile none).arena.buildMethod .root .empty (brokenSource "(La/B;)V")).1.toOption.map (·.trace) =
      some ⟨.genericSignature, none⟩ ∧
    ((ofFile none).arena.buildMethod .root .empty (brokenSource "(La/B;)V")).2.1.size = 6 := by
  refine ⟨?_, ?_, ?_⟩ <;> decide +kernel

end Tree
end SymbolCatalog
