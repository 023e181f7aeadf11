import SymbolCatalog.Proofs.Signature.Sources
import SymbolCatalog.Proofs.Tree.Build

/-! What a method comes to before it stands in a tree, told by its description and its types. -/
namespace SymbolCatalog
open Signature (MethodTypes Trace)

theorem MethodFlags.isGenericWith (flags : MethodFlags) (generic : Bool) :
    (flags.withGeneric generic).isGeneric = generic := by
  unfold isGeneric has withGeneric
  cases generic with
  | true =>
    have set : (flags.bits ||| genericBit) &&& genericBit = genericBit := by
      apply UInt8.eq_of_toBitVec_eq
      ext i
      simp only [UInt8.toBitVec_and, UInt8.toBitVec_or, BitVec.getElem_and, BitVec.getElem_or]
      cases genericBit.toBitVec[i] <;> simp
    rw [if_pos rfl, set]
    rfl
  | false =>
    have cleared : (flags.bits &&& ~~~genericBit) &&& genericBit = 0 := by
      apply UInt8.eq_of_toBitVec_eq
      ext i
      simp
    rw [if_neg Bool.false_ne_true, cleared]
    rfl

theorem lastVarargsNth (types : List TypeRef) (i : Nat) : (lastVarargs types)[i]? =
    types[i]?.map fun type => if i + 1 = types.length then type.asVarargs else type := by
  induction types generalizing i with
  | nil => rfl
  | cons first rest ih =>
    cases rest with
    | nil => cases i <;> simp [lastVarargs]
    | cons second rest =>
      have step : lastVarargs (first :: second :: rest) = first :: lastVarargs (second :: rest) := rfl
      rw [step]
      cases i with
      | zero => simp
      | succ i =>
        rw [List.getElem?_cons_succ, ih, List.getElem?_cons_succ]
        simp

namespace Signature.MethodSource
variable {source : MethodSource} {types : MethodTypes} {trace : Trace}

section
variable (plain : ∀ type ∈ types.parameters, type.varargs = false)
include plain

theorem partsParameters (i : Nat) :
    (source.parts types trace).parameterTypes[i]? = types.parameters[i]?.map fun type =>
      { type with varargs := source.flags.isVarargs && i + 1 = types.parameters.length && 0 < type.depth } := by
  have varargs : (source.flags.withGeneric (trace.origin = .genericSignature)).isVarargs = source.flags.isVarargs :=
    source.flags.hasWithGeneric _ rfl
  have same : ∀ type ∈ types.parameters[i]?, type = { type with varargs := false } := by
    intro type there
    rw [← plain type (List.mem_of_getElem? there)]
  unfold parts
  dsimp only
  rw [varargs]
  cases source.flags.isVarargs with
  | false =>
    rw [if_neg Bool.false_ne_true]
    cases there : types.parameters[i]? with
    | none => rfl
    | some type => exact congrArg some (same type there)
  | true =>
    rw [if_pos rfl, lastVarargsNth]
    cases there : types.parameters[i]? with
    | none => rfl
    | some type =>
      rw [Option.map_some, Option.map_some]
      by_cases last : i + 1 = types.parameters.length
      · simp [last, TypeRef.asVarargs]
      · simpa [last] using same type there

theorem partsCount : (source.parts types trace).parameterTypes.length = types.parameters.length := by
  have ends : ∀ i, (source.parts types trace).parameterTypes.length ≤ i ↔ types.parameters.length ≤ i := by
    intro i
    rw [← List.getElem?_eq_none_iff, partsParameters plain, Option.map_eq_none_iff, List.getElem?_eq_none_iff]
  exact Nat.le_antisymm ((ends _).mpr (Nat.le_refl _)) ((ends _).mp (Nat.le_refl _))

theorem partsPlain :
    ((source.parts types trace).parameterTypes.map fun type => { type with varargs := false }) = types.parameters := by
  refine List.ext_getElem? fun i => ?_
  rw [List.getElem?_map, partsParameters plain, Option.map_map]
  cases there : types.parameters[i]? with
  | none => rfl
  | some type =>
    have same := plain type (List.mem_of_getElem? there)
    rw [Option.map_some, Function.comp_apply, ← same]

theorem partsVariadic {i : Nat} {type : TypeRef} (there : (source.parts types trace).parameterTypes[i]? = some type) :
    type.varargs ↔ i + 1 = (source.parts types trace).parameterTypes.length ∧ source.flags.isVarargs ∧ 0 < type.depth := by
  rw [partsParameters plain, Option.map_eq_some_iff] at there
  obtain ⟨base, -, same⟩ := there
  subst same
  rw [partsCount plain]
  simp only [Bool.and_eq_true, decide_eq_true_eq]
  rw [and_comm (a := source.flags.isVarargs = true), and_assoc]

end

theorem partsThrows (given : source.Gives types trace.origin) : (source.parts types trace).throwsTypes =
    if trace.origin = .genericSignature ∧ types.throwsTypes ≠ [] then types.throwsTypes else source.throwsRefs := by
  have none : trace.origin = .rawDescriptor → types.throwsTypes = [] := by
    intro raw
    rw [raw] at given
    obtain ⟨m, -, same⟩ := Signature.descriptorReads.mp given.2
    exact same ▸ rfl
  unfold parts
  cases origin : trace.origin with
  | genericSignature => by_cases empty : types.throwsTypes = [] <;> simp [empty]
  | rawDescriptor => simp [none origin]

end Signature.MethodSource
end SymbolCatalog
