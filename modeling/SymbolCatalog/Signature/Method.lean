import SymbolCatalog.MethodFlags
import SymbolCatalog.Signature.Generic

/-! The types of a compiled method. The generic signature is tried first; if it is not well formed,
or has another number of parameters than a well-formed descriptor, the descriptor is read instead.
-/
namespace SymbolCatalog.Signature

structure MethodSource where
  name? : Option String
  flags : MethodFlags
  descriptor : String
  signature? : Option String
  parameterNames : List String
  throws? : Option (List String)
  modifiers : UInt32
  annotations : List Annotation
  deriving DecidableEq, Repr, Inhabited

inductive Origin where
  | genericSignature
  | rawDescriptor
  deriving DecidableEq, Repr, Inhabited

def Origin.name : Origin → String
  | .genericSignature => "GenericSignature"
  | .rawDescriptor => "RawDescriptor"

structure Trace where
  origin : Origin
  recovered? : Option FormatError
  deriving DecidableEq, Repr

def descriptorTypes (text : String) : Except FormatError MethodTypes :=
  (MethodDescriptor.parse text).map (·.types)

def signatureTypes (text : String) : Except FormatError MethodTypes :=
  (MethodSignature.parse text).map (·.types)

/-- Refuses types of a signature that differ in number from those of a well-formed descriptor. -/
def checkArity (types : MethodTypes) (signature descriptor : String) :
    Except FormatError MethodTypes :=
  match descriptorTypes descriptor with
  | .ok raw =>
    if raw.parameters.length = types.parameters.length then .ok types
    else .error ⟨signature, 0, .arity types.parameters.length descriptor raw.parameters.length⟩
  | .error _ => .ok types

def MethodSource.types (source : MethodSource) : Except FormatError (MethodTypes × Trace) :=
  match source.signature? with
  | none => withDescriptor none
  | some signature =>
    match signatureTypes signature with
    | .error e => withDescriptor (some e)
    | .ok types =>
      match checkArity types signature source.descriptor with
      | .ok types => .ok (types, ⟨.genericSignature, none⟩)
      | .error e => withDescriptor (some e)
where
  withDescriptor (recovered? : Option FormatError) : Except FormatError (MethodTypes × Trace) :=
    (descriptorTypes source.descriptor).map fun types => (types, ⟨.rawDescriptor, recovered?⟩)

end SymbolCatalog.Signature
