import SymbolCatalog.Proofs.Ends
import SymbolCatalog.Proofs.Signature.Descriptors
import SymbolCatalog.Tree.Build

/-! A method whose generic signature repeats its descriptor is built with the types it has without a
signature. All that tells the two trees apart is the flag that says where the types come from. -/
namespace SymbolCatalog
open ExceptT
open Signature (MethodSource MethodTypes TypeParameterText Trace descriptorTypes signatureTypes checkArity)

namespace MethodFlags

theorem orMasked (bits other mask : UInt8) : (bits ||| other) &&& mask = (bits &&& mask) ||| (other &&& mask) := by
  apply UInt8.eq_of_toBitVec_eq
  ext i
  simp [Bool.and_or_distrib_right]

theorem clearMasked {bits other mask : UInt8} (apart : other &&& mask = 0) :
    (bits &&& ~~~other) &&& mask = bits &&& mask := by
  have kept : mask = ~~~other &&& mask := by
    have whole : (other ||| ~~~other) &&& mask = mask := by simp
    rw [orMasked, apart] at whole
    simpa using whole.symm
  rw [UInt8.and_assoc, ← kept]

theorem hasWithGeneric (flags : MethodFlags) (generic : Bool) {mask : UInt8} (apart : genericBit &&& mask = 0) :
    (flags.withGeneric generic).has mask = flags.has mask := by
  unfold has withGeneric
  cases generic with
  | true => rw [if_pos rfl, orMasked, apart, UInt8.or_zero]
  | false => rw [if_neg Bool.false_ne_true, clearMasked apart]

theorem withGenericTwice (flags : MethodFlags) (generic : Bool) :
    (flags.withGeneric generic).withGeneric false = flags.withGeneric false := by
  unfold withGeneric
  cases generic with
  | true => simp [orMasked]
  | false => simp [UInt8.and_assoc]

end MethodFlags

def Method.originless (m : Method) : Method := { m with flags := m.flags.withGeneric false }

def Payload.originless : Payload → Payload
  | .method m => .method m.originless
  | other => other

def MethodParts.originless (parts : MethodParts) : MethodParts := { parts with method := parts.method.originless }

namespace Arena
variable {a : Arena} {α β : Type}

def originless (a : Arena) : Arena := a.mapPayload fun _ => Payload.originless

/- The second adding does the same to an arena whose origins were taken back before as the first one does
if they are taken back afterwards. -/
def Mirrors (first second : Growing α) : Prop := ∀ a : Arena, second a.originless = Prod.map id originless (first a)

theorem mirrorsBind {first second : Growing α} {rest rest' : α → Growing β} (h : Mirrors first second)
    (more : ∀ x, Mirrors (rest x) (rest' x)) : Mirrors (first >>= rest) (second >>= rest') := by
  intro a
  rw [runBind, runBind, h a]
  rcases first a with ⟨e | x, a'⟩
  · rfl
  · exact more x a'

theorem mirrorsPure (x : α) : Mirrors (pure x : Growing α) (pure x) := fun _ => rfl

theorem growOriginless (a : Arena) (parent : NodeId) (payload : Payload) :
    a.originless.grow parent payload.originless = (a.grow parent payload).originless := by
  have size : a.originless.size = a.size := Array.size_mapIdx
  refine congrArg Arena.mk (Array.ext_getElem? fun i => ?_)
  rw [size]
  unfold originless mapPayload grow
  rw [Array.getElem?_modify, Array.getElem?_push, Array.getElem?_mapIdx, Array.getElem?_mapIdx, Array.getElem?_modify,
    Array.getElem?_push, Array.size_mapIdx]
  by_cases last : i = a.slots.size
  · simp only [if_pos last, Option.map_some]
    split <;> rfl
  · simp only [if_neg last]
    split <;> cases a.slots[i]? <;> rfl

theorem addOriginless (parent : NodeId) (payload : Payload) :
    Mirrors (add parent payload) (add parent payload.originless) := by
  intro a
  have size : a.originless.size = a.size := Array.size_mapIdx
  by_cases inside : parent.index < a.size
  · rw [add_inside inside, add_inside (by rwa [size]), growOriginless, size]
    rfl
  · rw [add_outside inside, add_outside (by rwa [size])]
    rfl

theorem addAllOriginless (parent : NodeId) {payloads : List Payload} (plain : ∀ p ∈ payloads, p.originless = p) :
    Mirrors (payloads.forM fun payload => do let _ ← add parent payload)
      (payloads.forM fun payload => do let _ ← add parent payload) := by
  induction payloads with
  | nil => exact mirrorsPure ()
  | cons p payloads ih =>
    obtain ⟨first, plain⟩ := List.forall_mem_cons.mp plain
    have added := addOriginless parent p
    rw [first] at added
    exact mirrorsBind (mirrorsBind added fun _ => mirrorsPure ()) fun _ => ih plain

theorem addMethodOriginless (parent : NodeId) (source : MethodSource) (parts : MethodParts) :
    Mirrors (addMethod parent source parts) (addMethod parent source parts.originless) := by
  have plain : ∀ p ∈ source.parameterPayloads parts.parameterTypes, p.originless = p := by
    intro p mem
    obtain ⟨i, _, same⟩ := List.mem_mapIdx.mp mem
    subst same
    rfl
  unfold addMethod
  refine mirrorsBind (addOriginless parent (.method parts.method)) fun id => ?_
  refine mirrorsBind (addOriginless id (.modifierList source.modifiers source.annotations)) fun _ => ?_
  refine mirrorsBind (addOriginless id .parameterList) fun list => ?_
  refine mirrorsBind (addAllOriginless list plain) fun _ => ?_
  exact mirrorsBind (addOriginless id (.throwsList parts.throwsTypes)) fun _ => mirrorsPure id

theorem addMethodAlike {first second : MethodParts} (a : Arena) (parent : NodeId) (source : MethodSource)
    (same : first.originless = second.originless) :
    Prod.map id originless (addMethod parent source first a) =
      Prod.map id originless (addMethod parent source second a) := by
  rw [← addMethodOriginless, same, addMethodOriginless]

end Arena

namespace Signature.MethodSource

def repeated (source : MethodSource) : MethodSource := { source with signature? := some source.descriptor }

def unsigned (source : MethodSource) : MethodSource := { source with signature? := none }

theorem partsOriginless (source : MethodSource) (types : MethodTypes) (trace : Trace) :
    (source.parts types trace).originless = (source.parts types ⟨.rawDescriptor, none⟩).originless ∧
      (source.parts types trace).parameterTypes = (source.parts types ⟨.rawDescriptor, none⟩).parameterTypes ∧
      (source.parts types trace).throwsTypes = (source.parts types ⟨.rawDescriptor, none⟩).throwsTypes := by
  have varargs : ∀ generic, (source.flags.withGeneric generic).isVarargs = source.flags.isVarargs :=
    fun generic => source.flags.hasWithGeneric generic rfl
  unfold MethodParts.originless Method.originless parts
  simp only [varargs, MethodFlags.withGenericTwice, and_self]

section
variable {source : MethodSource} {types : MethodTypes} (h : descriptorTypes source.descriptor = .ok types)
include h

theorem repeatedTypes : source.repeated.types = .ok (types, ⟨.genericSignature, none⟩) := by
  have arity : checkArity types source.descriptor source.descriptor = .ok types := by
    unfold checkArity
    rw [h]
    exact if_pos rfl
  unfold MethodSource.types repeated
  dsimp only
  rw [descriptorIsSignature h]
  dsimp only
  rw [arity]

theorem unsignedTypes : source.unsigned.types = .ok (types, ⟨.rawDescriptor, none⟩) := by
  unfold MethodSource.types unsigned MethodSource.types.withDescriptor
  dsimp only
  rw [h]
  rfl

end

end Signature.MethodSource

namespace Arena

def builtTypes (built : Except BuildError BuiltMethod × Arena × NameTable) :
    Except BuildError (NodeId × List TypeRef × List TypeParameterText) × Arena × NameTable :=
  (built.1.map fun m => (m.id, m.parameterTypes, m.typeParameters), built.2.1.originless, built.2.2)

theorem buildTyped (a : Arena) (parent : NodeId) (table : NameTable) {source : MethodSource} {types : MethodTypes}
    {trace : Trace} (typed : source.types = .ok (types, trace)) :
    let parts := source.parts types ⟨.rawDescriptor, none⟩
    let entered := table.internAll (parts.parameterTypes.map (·.text) ++
      parts.throwsTypes.map (·.text) ++ source.name?.toList ++ [types.result.text])
    builtTypes (a.buildMethod parent table source) =
      match Prod.map id originless (addMethod parent source parts a) with
      | (.error e, a) => (.error (.unknownParent e), a, entered)
      | (.ok id, a) => (.ok (id, parts.parameterTypes, types.typeParameters), a,
          entered.internAll (source.parameterNames.take parts.parameterTypes.length)) := by
  obtain ⟨parts, parameters, throws⟩ := source.partsOriginless types trace
  have alike := addMethodAlike a parent source parts
  dsimp only
  unfold buildMethod
  rw [typed, ← alike, ← parameters, ← throws]
  dsimp only
  rcases addMethod parent source (source.parts types trace) a with ⟨e | id, a'⟩ <;> rfl

end Arena

/-- A descriptor is a generic signature of the same types, without exceptions and type parameters.
Given as the signature of its method as well, it changes nothing but the origin that is recorded. -/
theorem signatureRepeatsDescriptor {text : String} {types : MethodTypes} (h : descriptorTypes text = .ok types) :
    signatureTypes text = .ok types ∧ types.throwsTypes = [] ∧ types.typeParameters = [] ∧
      ∀ source : MethodSource, source.descriptor = text → ∀ (a : Arena) (parent : NodeId) (table : NameTable),
        Arena.builtTypes (a.buildMethod parent table source.repeated) =
          Arena.builtTypes (a.buildMethod parent table source.unsigned) := by
  obtain ⟨m, _, same⟩ := Signature.descriptorReads.mp h
  refine ⟨Signature.descriptorIsSignature h, same ▸ rfl, same ▸ rfl, fun source named a parent table => ?_⟩
  subst named
  rw [a.buildTyped parent table (MethodSource.repeatedTypes h),
    a.buildTyped parent table (MethodSource.unsignedTypes h)]
  rfl

theorem bracketsRepeatDescriptor :
    let types : MethodTypes := ⟨.void, [⟨"int", 0, false, []⟩, ⟨"a.(^", 2, false, []⟩], [], []⟩
    descriptorTypes "(I[[La/(^;)V" = .ok types ∧ signatureTypes "(I[[La/(^;)V" = .ok types := by
  have read : descriptorTypes "(I[[La/(^;)V" = .ok _ := Signature.descriptorReads.mpr
    ⟨⟨[.primitive 0 .int, .classType 2 ⟨"a/(^", by simp [Signature.Named, Signature.reserved]⟩], none⟩, by decide, rfl⟩
  exact ⟨read, (signatureRepeatsDescriptor read).1⟩

end SymbolCatalog
