import SymbolCatalog.TypeRef

/-! The syntax of method descriptors and generic method signatures. `Ty.chars` and its companions
write the compact form, `Ty.source` and its companions the form of source code. -/
namespace SymbolCatalog.Signature

inductive Primitive where
  | byte
  | char
  | double
  | float
  | int
  | long
  | short
  | boolean
  deriving DecidableEq, Repr, Inhabited

namespace Primitive

def tag : Primitive → Char
  | byte => 'B'
  | char => 'C'
  | double => 'D'
  | float => 'F'
  | int => 'I'
  | long => 'J'
  | short => 'S'
  | boolean => 'Z'

def keyword : Primitive → String
  | byte => "byte"
  | char => "char"
  | double => "double"
  | float => "float"
  | int => "int"
  | long => "long"
  | short => "short"
  | boolean => "boolean"

def ofTag? : Char → Option Primitive
  | 'B' => some byte
  | 'C' => some char
  | 'D' => some double
  | 'F' => some float
  | 'I' => some int
  | 'J' => some long
  | 'S' => some short
  | 'Z' => some boolean
  | _ => none

@[simp] theorem ofTag?_tag (p : Primitive) : ofTag? p.tag = some p := by cases p <;> rfl

theorem tag_of_ofTag? {c : Char} {p : Primitive} (h : ofTag? c = some p) : c = p.tag := by
  unfold ofTag? at h
  split at h <;> first | (cases h; rfl) | contradiction

end Primitive

def dotted (name : String) : String :=
  String.ofList (name.toList.map fun c => if c = '/' then '.' else c)

inductive Variance where
  | exact
  | covariant
  | contravariant
  deriving DecidableEq, Repr, Inhabited

def Variance.chars : Variance → List Char
  | exact => []
  | covariant => ['+']
  | contravariant => ['-']

def Variance.words : Variance → String
  | exact => ""
  | covariant => "? extends "
  | contravariant => "? super "

mutual

inductive Ty where
  | primitive (depth : UInt8) (p : Primitive)
  | variable (depth : UInt8) (name : String)
  | classType (depth : UInt8) (type : ClassTy)

/-- A class with its type arguments, and the classes nested in it that lead to the type meant. -/
inductive ClassTy where
  | last (name : String) (args : Args)
  | outer (name : String) (args : Args) (inner : ClassTy)

inductive Args where
  | nil
  | any (rest : Args)
  | typed (variance : Variance) (type : Ty) (rest : Args)

end

def bracketChars (depth : UInt8) : List Char := List.replicate depth.toNat '['

mutual

def Ty.chars : Ty → List Char
  | .primitive depth p => bracketChars depth ++ [p.tag]
  | .variable depth name => bracketChars depth ++ 'T' :: (name.toList ++ [';'])
  | .classType depth type => bracketChars depth ++ 'L' :: type.chars

def ClassTy.chars : ClassTy → List Char
  | .last name args => name.toList ++ args.listChars ++ [';']
  | .outer name args inner => name.toList ++ args.listChars ++ '.' :: inner.chars

def Args.listChars : Args → List Char
  | .nil => []
  | .any rest => '<' :: '*' :: (rest.itemChars ++ ['>'])
  | .typed variance type rest => '<' :: (variance.chars ++ type.chars ++ rest.itemChars ++ ['>'])

def Args.itemChars : Args → List Char
  | .nil => []
  | .any rest => '*' :: rest.itemChars
  | .typed variance type rest => variance.chars ++ type.chars ++ rest.itemChars

end

def bracketText (depth : UInt8) : String := String.join (List.replicate depth.toNat "[]")

def angled (texts : List String) : String :=
  if texts.isEmpty then "" else "<" ++ ",".intercalate texts ++ ">"

mutual

def Ty.element : Ty → String
  | .primitive _ p => p.keyword
  | .variable _ name => name
  | .classType _ type => type.source

def Ty.source : Ty → String
  | .primitive depth p => p.keyword ++ bracketText depth
  | .variable depth name => name ++ bracketText depth
  | .classType depth type => type.source ++ bracketText depth

def ClassTy.source : ClassTy → String
  | .last name args => dotted name ++ angled args.texts
  | .outer name args inner => dotted name ++ angled args.texts ++ "." ++ inner.source

def Args.texts : Args → List String
  | .nil => []
  | .any rest => "?" :: rest.texts
  | .typed variance type rest => (variance.words ++ type.source) :: rest.texts

end

def Ty.depth : Ty → UInt8
  | .primitive depth _ | .variable depth _ | .classType depth _ => depth

def Ty.ref (t : Ty) : TypeRef := (TypeRef.ofName t.element).withDepth t.depth

structure TypeParameter where
  name : String
  classBound? : Option Ty
  interfaceBounds : List Ty

namespace TypeParameter

/-- All bounds, the class first. -/
def bounds (p : TypeParameter) : List Ty := p.classBound?.toList ++ p.interfaceBounds

def chars (p : TypeParameter) : List Char :=
  p.name.toList ++ ':' :: ((p.classBound?.map Ty.chars).getD [] ++
    p.interfaceBounds.flatMap fun bound => ':' :: bound.chars)

end TypeParameter

def resultChars (result? : Option Ty) : List Char := (result?.map Ty.chars).getD ['V']

def resultRef (result? : Option Ty) : TypeRef := (result?.map Ty.ref).getD .void

structure MethodSignature where
  typeParameters : List TypeParameter
  parameters : List Ty
  result? : Option Ty
  throwsTypes : List Ty

def MethodSignature.chars (s : MethodSignature) : List Char :=
  (if s.typeParameters.isEmpty then []
    else '<' :: (s.typeParameters.flatMap TypeParameter.chars ++ ['>'])) ++
  '(' :: (s.parameters.flatMap Ty.chars ++ ')' :: resultChars s.result?) ++
  s.throwsTypes.flatMap fun thrown => '^' :: thrown.chars

def MethodSignature.print (s : MethodSignature) : String := String.ofList s.chars

structure MethodDescriptor where
  parameters : List Ty
  result? : Option Ty

def MethodDescriptor.chars (d : MethodDescriptor) : List Char :=
  '(' :: (d.parameters.flatMap Ty.chars ++ ')' :: resultChars d.result?)

def MethodDescriptor.print (d : MethodDescriptor) : String := String.ofList d.chars

structure TypeParameterText where
  name : String
  bounds : List String
  deriving DecidableEq, Repr, Inhabited

structure MethodTypes where
  result : TypeRef
  parameters : List TypeRef
  throwsTypes : List TypeRef
  typeParameters : List TypeParameterText
  deriving DecidableEq, Repr, Inhabited

def MethodSignature.types (s : MethodSignature) : MethodTypes where
  result := resultRef s.result?
  parameters := s.parameters.map Ty.ref
  throwsTypes := s.throwsTypes.map Ty.ref
  typeParameters := s.typeParameters.map fun p => ⟨p.name, p.bounds.map Ty.source⟩

def MethodDescriptor.types (d : MethodDescriptor) : MethodTypes where
  result := resultRef d.result?
  parameters := d.parameters.map Ty.ref
  throwsTypes := []
  typeParameters := []

end SymbolCatalog.Signature
