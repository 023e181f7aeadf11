import SymbolCatalog.MethodFlags
import SymbolCatalog.TypeRef

/-! What the nodes of a declaration tree are: their kinds, with the tag that stored trees use, and
what a node of each kind carries. -/
namespace SymbolCatalog

inductive Kind where
  | file
  | classDecl
  | field
  | method
  | annotationMethod
  | parameterList
  | parameter
  | modifierList
  | throwsList
  deriving DecidableEq, Repr, Inhabited

namespace Kind

def all : List Kind :=
  [file, classDecl, field, method, annotationMethod, parameterList, parameter, modifierList,
    throwsList]

def tag : Kind → UInt8
  | file => 0
  | classDecl => 1
  | field => 2
  | method => 3
  | annotationMethod => 4
  | parameterList => 5
  | parameter => 6
  | modifierList => 7
  | throwsList => 8

def ofTag? (tag : UInt8) : Option Kind := all[tag.toNat]?

def name : Kind → String
  | file => "File"
  | classDecl => "Class"
  | field => "Field"
  | method => "Method"
  | annotationMethod => "AnnotationMethod"
  | parameterList => "ParameterList"
  | parameter => "Parameter"
  | modifierList => "ModifierList"
  | throwsList => "ThrowsList"

def isMethod (kind : Kind) : Bool := kind = method || kind = annotationMethod

def isIndexed (kind : Kind) : Bool := kind = classDecl || kind = field || kind.isMethod

@[simp] theorem ofTag?_tag (kind : Kind) : ofTag? kind.tag = some kind := by
  cases kind <;> rfl

end Kind

structure Method where
  name? : Option String
  flags : MethodFlags
  returnType : TypeRef
  default? : Option String
  deriving DecidableEq, Repr, Inhabited

inductive Payload where
  | file (package? : Option String)
  | classDecl (name : String) (flags : UInt8)
  | field (name : String) (type : TypeRef) (flags : UInt8) (initializer? : Option String)
  | method (m : Method)
  | parameterList
  | parameter (name? : Option String) (type : TypeRef)
  | modifierList (mask : UInt32) (annotations : List Annotation)
  | throwsList (types : List TypeRef)
  deriving DecidableEq, Repr, Inhabited

namespace Payload

/-- The kind of a node with this payload; a method's annotation flag decides which sort it is. -/
def kind : Payload → Kind
  | file _ => .file
  | classDecl .. => .classDecl
  | field .. => .field
  | method m => if m.flags.isAnnotationMethod then .annotationMethod else .method
  | parameterList => .parameterList
  | parameter .. => .parameter
  | modifierList .. => .modifierList
  | throwsList _ => .throwsList

def name? : Payload → Option String
  | classDecl name _ => some name
  | field name .. => some name
  | method m => m.name?
  | parameter name _ => name
  | _ => none

def withDefault (text : String) : Payload → Payload
  | method m => method { m with default? := some text }
  | payload => payload

@[simp] theorem kind_withDefault (text : String) (p : Payload) :
    (p.withDefault text).kind = p.kind := by cases p <;> rfl

@[simp] theorem name?_withDefault (text : String) (p : Payload) :
    (p.withDefault text).name? = p.name? := by cases p <;> rfl

end Payload

namespace Method

def summary (m : Method) : String :=
  (if m.flags.isConstructor then "cons " else "") ++
  (if m.flags.isAnnotationMethod then "annotation " else "") ++
  (if m.flags.isVarargs then "varargs " else "") ++
  (if m.flags.isDeprecated || m.flags.hasDeprecatedAnnotation then "deprecated " else "") ++
  m.name?.getD "<anonymous>" ++ ":" ++ m.returnType.render ++
  (match m.default? with
    | some text => " default=" ++ text
    | none => "")

open Text.Inspect in
def inspect (m : Method) : String :=
  record "MethodDescriptor"
    [("name", optional (m.name?.map Text.quoted)), ("flags", m.flags.inspect),
     ("return_type", m.returnType.inspect),
     ("default_value", partialRecord "RwLock"
       [("data", optional (m.default?.map Text.quoted)), ("poisoned", truth false)])]

end Method
end SymbolCatalog
