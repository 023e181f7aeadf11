import SymbolCatalog.Proofs.Signature.Descriptors
import SymbolCatalog.Signature.Method

/-! Which of its two inputs gives a method its types. A signature that can be used is taken whatever the
descriptor is; only without one is the descriptor all there is. -/
namespace SymbolCatalog.Signature
variable {source : MethodSource} {types : MethodTypes}

namespace MethodSource

def Signed (source : MethodSource) (types : MethodTypes) : Prop :=
  ∃ signature, source.signature? = some signature ∧ signatureTypes signature = .ok types ∧
    ∀ raw, descriptorTypes source.descriptor = .ok raw → raw.parameters.length = types.parameters.length

def Gives (source : MethodSource) (types : MethodTypes) : Origin → Prop
  | .genericSignature => source.Signed types
  | .rawDescriptor => (∀ other, ¬ source.Signed other) ∧ descriptorTypes source.descriptor = .ok types

end MethodSource

theorem checkArityOk {signature descriptor : String} {checked : MethodTypes} :
    checkArity types signature descriptor = .ok checked ↔ types = checked ∧
      ∀ raw, descriptorTypes descriptor = .ok raw → raw.parameters.length = types.parameters.length := by
  unfold checkArity
  cases descriptorTypes descriptor with
  | error e => simp
  | ok raw =>
    by_cases same : raw.parameters.length = types.parameters.length
    · simp [same]
    · simp [same]

namespace MethodSource

theorem typesSigned (signed : source.Signed types) : source.types = .ok (types, ⟨.genericSignature, none⟩) := by
  obtain ⟨signature, given, read, arity⟩ := signed
  unfold MethodSource.types
  rw [given]
  dsimp only
  rw [read]
  dsimp only
  rw [checkArityOk.mpr ⟨rfl, arity⟩]

theorem typesUnsigned (unsigned : ∀ types, ¬ source.Signed types) : ∃ recovered?,
    source.types = (descriptorTypes source.descriptor).map fun types => (types, ⟨.rawDescriptor, recovered?⟩) := by
  unfold MethodSource.types MethodSource.types.withDescriptor
  split
  · exact ⟨none, rfl⟩
  · next signature given =>
    split
    · next e _ => exact ⟨some e, rfl⟩
    · next types read =>
      split
      · next checked arity =>
        obtain ⟨same, agree⟩ := checkArityOk.mp arity
        exact absurd ⟨signature, given, same ▸ read, same ▸ agree⟩ (unsigned checked)
      · next e _ => exact ⟨some e, rfl⟩

theorem typesGiven {trace : Trace} (typed : source.types = .ok (types, trace)) : source.Gives types trace.origin := by
  by_cases signed : ∃ other, source.Signed other
  · obtain ⟨other, signed⟩ := signed
    cases typed.symm.trans (typesSigned signed)
    exact signed
  · have unsigned := not_exists.mp signed
    obtain ⟨recovered?, found⟩ := typesUnsigned unsigned
    rw [found] at typed
    cases read : descriptorTypes source.descriptor with
    | error e =>
      rw [read] at typed
      cases typed
    | ok raw =>
      rw [read] at typed
      cases typed
      exact ⟨unsigned, read⟩

theorem typesRefused {fault : FormatError} : source.types = .error fault ↔
    (∀ types, ¬ source.Signed types) ∧ descriptorTypes source.descriptor = .error fault := by
  by_cases signed : ∃ other, source.Signed other
  · obtain ⟨other, signed⟩ := signed
    rw [typesSigned signed]
    exact ⟨nofun, fun h => absurd signed (h.1 other)⟩
  · have unsigned := not_exists.mp signed
    obtain ⟨recovered?, found⟩ := typesUnsigned unsigned
    rw [found]
    cases descriptorTypes source.descriptor with
    | error e => exact ⟨fun h => ⟨unsigned, congrArg _ (Except.error.inj h)⟩, fun h => congrArg _ (Except.error.inj h.2)⟩
    | ok raw => exact ⟨nofun, nofun⟩

section
variable {origin : Origin} (given : source.Gives types origin)
include given

theorem Gives.signature : ∃ text, signatureTypes text = .ok types := by
  cases origin with
  | genericSignature =>
    obtain ⟨signature, -, read, -⟩ := given
    exact ⟨signature, read⟩
  | rawDescriptor => exact ⟨_, descriptorIsSignature given.2⟩

theorem Gives.plain : ∀ type ∈ types.parameters, type.varargs = false := by
  obtain ⟨text, read⟩ := given.signature
  obtain ⟨s, -, same⟩ := signatureTypesOk.mp read
  subst same
  intro type mem
  obtain ⟨ty, -, same⟩ := List.mem_map.mp mem
  exact same ▸ rfl

theorem Gives.arity {raw : MethodTypes} (read : descriptorTypes source.descriptor = .ok raw) :
    types.parameters.length = raw.parameters.length := by
  cases origin with
  | genericSignature =>
    obtain ⟨-, -, -, agree⟩ := given
    exact (agree raw read).symm
  | rawDescriptor =>
    cases given.2.symm.trans read
    rfl

end
end MethodSource
end SymbolCatalog.Signature
