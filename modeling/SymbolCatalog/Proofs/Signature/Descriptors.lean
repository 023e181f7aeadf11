import Mathlib.Data.Set.List
import SymbolCatalog.Proofs.Signature.Exactness

/-! Raw descriptors are read exactly. What a descriptor can say has types of its own, which hold
nothing else; it is written as part of the syntax of signatures, and a signature reads it too. -/
namespace SymbolCatalog.Signature
variable {c after : Cursor} {n : Nat}

def ClassName := { name : String // Named true name.toList }

inductive FieldType where
  | primitive (depth : UInt8) (p : Primitive)
  | classType (depth : UInt8) (name : ClassName)

namespace FieldType

def ty : FieldType → Ty
  | primitive depth p => .primitive depth p
  | classType depth name => .classType depth (.last name.val .nil)

def reference : FieldType → TypeRef
  | primitive depth p => { text := p.keyword, depth, varargs := false, annotations := [] }
  | classType depth name => { text := dotted name.val, depth, varargs := false, annotations := [] }

theorem tyInjective : Function.Injective ty := by
  intro a b same
  cases a with
  | primitive depth p =>
    cases b with
    | primitive depth' p' =>
      cases same
      rfl
    | classType depth' name' => cases same
  | classType depth name =>
    cases b with
    | primitive depth' p' => cases same
    | classType depth' name' =>
      obtain ⟨sameDepth, sameType⟩ := Ty.classType.inj same
      obtain ⟨sameName, _⟩ := ClassTy.last.inj sameType
      rw [sameDepth, Subtype.ext sameName]

theorem tyRef (f : FieldType) : f.ty.ref = f.reference := by
  cases f with
  | primitive depth p => rfl
  | classType depth name =>
    have plain : (Ty.classType depth (.last name.val .nil)).element = dotted name.val := by
      rw [Ty.element, ClassTy.source, Args.texts]
      exact String.append_empty
    unfold Ty.ref ty reference
    rw [plain]
    rfl

theorem tyWellFormed (f : FieldType) : f.ty.WellFormed := by
  cases f with
  | primitive depth p =>
    rw [ty, Ty.WellFormed]
    trivial
  | classType depth name =>
    rw [ty, Ty.WellFormed, ClassTy.WellFormed, Args.WellFormed]
    exact ⟨name.property, trivial⟩

end FieldType

def Ty.IsField (t : Ty) : Prop := ∃ f : FieldType, f.ty = t

theorem readFieldOk {t : Ty} : readField c = .ok (t, after) ↔ t.IsField ∧ c.Over t.chars after := by
  have stops : ∀ x ∈ [';'], x ∈ reserved ∧ x ≠ '/' := by simp [reserved]
  unfold readField
  rw [bindOk]
  simp only [readDepthOk, peekOk]
  constructor
  · intro h
    obtain ⟨depth, m, ⟨brackets, _⟩, h⟩ := h
    generalize head : m.rest.head? = letter? at h
    split at h
    · cases h
    · obtain ⟨_, m', letter, h⟩ := bindOk.mp h
      rw [advanceOk head] at letter
      obtain ⟨name, m'', h, more⟩ := bindOk.mp h
      obtain ⟨named, taken, _⟩ := (readNameOk stops).mp h
      obtain ⟨_, m''', stop, more⟩ := bindOk.mp more
      rw [expectOk] at stop
      obtain ⟨same, place⟩ := pureOk.mp more
      subst same
      subst place
      refine ⟨⟨.classType depth ⟨name, named⟩, rfl⟩, ?_⟩
      rw [Ty.chars, ClassTy.chars, Args.listChars, List.append_nil, overAppend]
      exact ⟨m, brackets, overCons.mpr ⟨m', letter, overAppend.mpr ⟨m'', taken, stop⟩⟩⟩
    · next letter _ =>
      generalize found : Primitive.ofTag? letter = p? at h
      cases p? with
      | none => cases h
      | some p =>
        rw [Primitive.tag_of_ofTag? found] at head
        obtain ⟨same, taken⟩ := (readLetterOk depth head).mp h
        subst same
        rw [Ty.chars, overAppend]
        exact ⟨⟨.primitive depth p, rfl⟩, m, brackets, taken⟩
  · intro h
    obtain ⟨⟨f, same⟩, taken⟩ := h
    subst same
    cases f with
    | primitive depth p =>
      rw [FieldType.ty, Ty.chars, overAppend] at taken
      obtain ⟨m, brackets, taken⟩ := taken
      have head : m.rest.head? = some p.tag := taken.head
      refine ⟨depth, m, ⟨brackets, tagNoBracket head⟩, ?_⟩
      have read := (readLetterOk depth head).mpr ⟨rfl, taken⟩
      rw [head]
      cases p <;> exact read
    | classType depth name =>
      rw [FieldType.ty, Ty.chars, ClassTy.chars, Args.listChars, List.append_nil, overAppend] at taken
      obtain ⟨m, brackets, taken⟩ := taken
      have head : m.rest.head? = some 'L' := taken.head
      obtain ⟨m', letter, taken⟩ := overCons.mp taken
      obtain ⟨m'', taken, stop⟩ := overAppend.mp taken
      have first : Reader.advance m = .ok ((), m') := (advanceOk head).mpr letter
      have second := (readNameOk stops).mpr ⟨name.property, taken, ';', List.mem_singleton_self _, stop.head⟩
      have third : Reader.expect ';' m'' = .ok ((), after) := expectOk.mpr stop
      refine ⟨depth, m, ⟨brackets, by simp [head]⟩, ?_⟩
      rw [head]
      change (Reader.advance >>= fun _ => _) m = _
      rw [bindOf first, bindOf second, bindOf third]
      rfl

theorem readFieldTakes : Takes readField n Ty.IsField := fun _ _ _ _ => readFieldOk

structure MethodType where
  parameters : List FieldType
  result? : Option FieldType

namespace MethodType

def descriptor (m : MethodType) : MethodDescriptor := ⟨m.parameters.map FieldType.ty, m.result?.map FieldType.ty⟩

def print (m : MethodType) : String := m.descriptor.print

def types (m : MethodType) : MethodTypes where
  result := (m.result?.map FieldType.reference).getD .void
  parameters := m.parameters.map FieldType.reference
  throwsTypes := []
  typeParameters := []

theorem descriptorInjective : Function.Injective descriptor := by
  intro a b same
  obtain ⟨parameters, result⟩ := MethodDescriptor.mk.inj same
  cases a
  cases b
  rw [mk.injEq]
  exact ⟨List.map_injective_iff.mpr FieldType.tyInjective parameters,
    Option.map_injective FieldType.tyInjective result⟩

theorem typesAsDescriptor (m : MethodType) : m.descriptor.types = m.types := by
  have refs : Ty.ref ∘ FieldType.ty = FieldType.reference := funext FieldType.tyRef
  unfold MethodDescriptor.types types descriptor resultRef
  rw [List.map_map, Option.map_map, refs]

def signature (m : MethodType) : MethodSignature := ⟨[], m.descriptor.parameters, m.descriptor.result?, []⟩

theorem signatureWellFormed (m : MethodType) : m.signature.WellFormed where
  typeParameters := by simp [signature]
  separate := .nil
  parameters := by simp [signature, descriptor, FieldType.tyWellFormed]
  result := by simp [signature, descriptor, FieldType.tyWellFormed]
  throwsTypes := by simp [signature]

theorem signaturePrint (m : MethodType) : m.signature.print = m.print := by
  simp [print, MethodDescriptor.print, MethodDescriptor.chars, MethodSignature.print, MethodSignature.chars, signature]

theorem typesAsSignature (m : MethodType) : m.signature.types = m.types := m.typesAsDescriptor

end MethodType

def MethodDescriptor.WellFormed (d : MethodDescriptor) : Prop := ∃ m : MethodType, m.descriptor = d

theorem MethodDescriptor.fieldTypes (d : MethodDescriptor) :
    d.WellFormed ↔ (∀ t ∈ d.parameters, t.IsField) ∧ ∀ t ∈ d.result?, t.IsField := by
  unfold MethodDescriptor.WellFormed Ty.IsField
  constructor
  · intro h
    obtain ⟨m, same⟩ := h
    subst same
    simp [MethodType.descriptor]
  · intro h
    obtain ⟨all, result⟩ := h
    obtain ⟨fields, same⟩ := (Set.range_list_map FieldType.ty).ge all
    obtain ⟨parameters, result?⟩ := d
    cases result? with
    | none => exact ⟨⟨fields, none⟩, by rw [MethodType.descriptor, same]; rfl⟩
    | some t =>
      obtain ⟨f, same'⟩ := result t rfl
      exact ⟨⟨fields, some f⟩, by rw [MethodType.descriptor, same, Option.map_some, same']⟩

theorem MethodDescriptor.charsParts (d : MethodDescriptor) :
    d.chars = '(' :: (d.parameters.flatMap Ty.chars ++ [')']) ++ resultChars d.result? := by
  simp [MethodDescriptor.chars]

theorem readDescriptorOk {d : MethodDescriptor} :
    readDescriptor c = .ok (d, after) ↔ d.WellFormed ∧ c.Over d.chars after ∧ after.rest = [] := by
  unfold readDescriptor
  rw [d.fieldTypes, d.charsParts, overAppend, bindOk]
  simp only [readParameterListOk readFieldTakes (Nat.le_refl _), bindOk,
    readResultOk readFieldTakes (Nat.le_refl _), readEndOk, pureOk]
  constructor
  · intro h
    obtain ⟨parameters, m, ⟨all, listed⟩, result?, m', ⟨good, result⟩, _, m'', ⟨ended, place⟩, same, place'⟩ := h
    subst same
    subst place'
    subst place
    exact ⟨⟨all, good⟩, ⟨m, listed, result⟩, ended⟩
  · intro h
    obtain ⟨⟨all, good⟩, ⟨m, listed, result⟩, ended⟩ := h
    exact ⟨_, m, ⟨all, listed⟩, _, after, ⟨good, result⟩, (), after, ⟨ended, rfl⟩, rfl, rfl⟩

theorem descriptorParses {text : String} {d : MethodDescriptor} :
    MethodDescriptor.parse text = .ok d ↔ d.WellFormed ∧ d.print = text :=
  runPrints fun _ => readDescriptorOk

theorem descriptorReads {text : String} {types : MethodTypes} :
    descriptorTypes text = .ok types ↔ ∃ m : MethodType, m.print = text ∧ m.types = types := by
  unfold descriptorTypes
  constructor
  · intro h
    cases parsed : MethodDescriptor.parse text with
    | error e =>
      rw [parsed] at h
      cases h
    | ok d =>
      rw [parsed] at h
      obtain ⟨⟨m, same⟩, print⟩ := descriptorParses.mp parsed
      subst same
      cases h
      exact ⟨m, print, m.typesAsDescriptor.symm⟩
  · intro h
    obtain ⟨m, print, same⟩ := h
    rw [descriptorParses.mpr ⟨⟨m, rfl⟩, print⟩, ← same, ← m.typesAsDescriptor]
    rfl

/-- Every written form is accepted and read as what it says, nothing else is accepted, and no two
descriptors are written alike. -/
theorem descriptorsReadExactly :
    Function.Injective MethodType.print ∧ ∀ text types,
      descriptorTypes text = .ok types ↔ ∃ m : MethodType, m.print = text ∧ m.types = types := by
  refine ⟨?_, fun _ _ => descriptorReads⟩
  intro a b same
  have first : MethodDescriptor.parse a.print = .ok a.descriptor := descriptorParses.mpr ⟨⟨a, rfl⟩, rfl⟩
  have second : MethodDescriptor.parse a.print = .ok b.descriptor := descriptorParses.mpr ⟨⟨b, rfl⟩, same.symm⟩
  exact MethodType.descriptorInjective (Except.ok.inj (first.symm.trans second))

example : (MethodType.mk [.primitive 0 .int, .classType 1 ⟨"a/(^", by simp [Named, reserved]⟩] none).print =
    "(I[La/(^;)V" := by decide

theorem descriptorIsSignature {text : String} {types : MethodTypes} (h : descriptorTypes text = .ok types) :
    signatureTypes text = .ok types := by
  obtain ⟨m, print, same⟩ := descriptorReads.mp h
  unfold signatureTypes
  rw [parseOk.mpr ⟨m.signatureWellFormed, m.signaturePrint.trans print⟩, ← same, ← m.typesAsSignature]
  rfl

end SymbolCatalog.Signature
