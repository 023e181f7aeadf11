import SymbolCatalog.Tree.Basic

/-! A method together with the tree it stands in: the modifiers, parameters and exceptions that its
child nodes carry, and the return type with the annotations of the modifier list applied. -/
namespace SymbolCatalog

structure MethodView where
  tree : Tree
  id : NodeId
  method : Method

structure ParameterView where
  id : NodeId
  name? : Option String
  type : TypeRef
  deriving DecidableEq, Repr

namespace MethodView

inductive LookupError where
  | notAMethod (id : NodeId)
  | noParameterList (id : NodeId)
  | outOfRange (index count : Nat)
  | notAParameter (id : NodeId)
  deriving DecidableEq, Repr

def LookupError.message : LookupError → String
  | .notAMethod id => "Node " ++ id.inspect ++ " is not a method descriptor"
  | .noParameterList id => "No parameter list attached to " ++ id.inspect ++ " yet"
  | .outOfRange index count =>
    s!"Parameter index {index} out of range (method has {count} parameters)"
  | .notAParameter id => "Corrupt descriptor data: " ++ id.inspect ++ " is not a parameter"

def of (tree : Tree) (id : NodeId) : Except LookupError MethodView :=
  match tree.method? id with
  | some method => .ok ⟨tree, id, method⟩
  | none => .error (.notAMethod id)

def kind (v : MethodView) : Kind := (Payload.method v.method).kind

def modifiers? (v : MethodView) : Option (UInt32 × List Annotation) := do
  match ← v.tree.payload? (← v.tree.findChild? v.id .modifierList) with
  | .modifierList mask annotations => some (mask, annotations)
  | _ => none

def typeAnnotations (v : MethodView) : List String :=
  match v.modifiers? with
  | some (_, annotations) => (annotations.filter (·.typeUse)).map (·.name)
  | none => []

/-- The return type with the annotations of the modifier list applied; where none applies it is the
type as it is stored. -/
def resolvedReturn (v : MethodView) : TypeRef :=
  match v.modifiers? with
  | some (_, annotations) =>
    if annotations.any (·.typeUse) then v.method.returnType.annotate v.typeAnnotations
    else v.method.returnType
  | none => v.method.returnType

def parameterAt? (v : MethodView) (id : NodeId) : Option ParameterView :=
  match v.tree.payload? id with
  | some (.parameter name type) => some ⟨id, name, type⟩
  | _ => none

def parameterIds (v : MethodView) : Except LookupError (List NodeId) :=
  match v.tree.findChild? v.id .parameterList with
  | some list => .ok (v.tree.children list)
  | none => .error (.noParameterList v.id)

def parameter (v : MethodView) (index : Nat) : Except LookupError ParameterView := do
  let ids ← v.parameterIds
  match ids[index]? with
  | none => throw (.outOfRange index ids.length)
  | some id =>
    match v.parameterAt? id with
    | some p => pure p
    | none => throw (.notAParameter id)

def parameters (v : MethodView) : Except LookupError (List ParameterView) :=
  return (← v.parameterIds).filterMap v.parameterAt?

def throwsTypes (v : MethodView) : List TypeRef :=
  match (v.tree.findChild? v.id .throwsList).bind v.tree.payload? with
  | some (.throwsList types) => types
  | _ => []

def inspect (v : MethodView) : String :=
  Text.Inspect.record "MethodView" [("id", v.id.inspect), ("method", v.method.inspect)]

end MethodView
end SymbolCatalog
