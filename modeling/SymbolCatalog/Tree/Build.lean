import SymbolCatalog.NameTable
import SymbolCatalog.Signature.Method
import SymbolCatalog.Tree.Basic

/-! Adding a compiled method to a tree: its node with a modifier list, a parameter list and a throws
list, in this order. All of it is added or nothing. -/
namespace SymbolCatalog

open Signature (FormatError MethodSource MethodTypes TypeParameterText Trace)

inductive BuildError where
  | malformed (e : FormatError)
  | unknownParent (e : UnknownParent)
  deriving DecidableEq, Repr

def BuildError.message : BuildError → String
  | .malformed e => "Malformed method descriptor: " ++ e.message
  | .unknownParent e => e.message

structure BuiltMethod where
  id : NodeId
  parameterTypes : List TypeRef
  typeParameters : List TypeParameterText
  trace : Trace
  deriving DecidableEq, Repr

def lastVarargs : List TypeRef → List TypeRef
  | [] => []
  | [last] => [last.asVarargs]
  | first :: rest => first :: lastVarargs rest

structure MethodParts where
  method : Method
  parameterTypes : List TypeRef
  throwsTypes : List TypeRef
  deriving DecidableEq, Repr

namespace Signature.MethodSource

def throwsRefs (source : MethodSource) : List TypeRef :=
  (source.throws?.getD []).map fun name => .ofName (dotted name)

def parts (source : MethodSource) (types : MethodTypes) (trace : Trace) : MethodParts :=
  let flags := source.flags.withGeneric (trace.origin = .genericSignature)
  { method := ⟨source.name?, flags, types.result, none⟩
    parameterTypes := if flags.isVarargs then lastVarargs types.parameters else types.parameters
    throwsTypes := if types.throwsTypes.isEmpty then source.throwsRefs else types.throwsTypes }

def parameterPayloads (source : MethodSource) (types : List TypeRef) : List Payload :=
  types.mapIdx fun i type => .parameter source.parameterNames[i]? type

end Signature.MethodSource

namespace Arena

def addMethod (parent : NodeId) (source : MethodSource) (parts : MethodParts) : Growing NodeId := do
  let id ← add parent (.method parts.method)
  let _ ← add id (.modifierList source.modifiers source.annotations)
  let list ← add id .parameterList
  (source.parameterPayloads parts.parameterTypes).forM fun payload => do let _ ← add list payload
  let _ ← add id (.throwsList parts.throwsTypes)
  pure id

/-- Finds the types of a method and adds it below `parent`; the arena and the names after it stand
beside the answer, whatever it is. Where the parent is unknown the names of the method are entered,
but not those of its parameters. -/
def buildMethod (a : Arena) (parent : NodeId) (table : NameTable) (source : MethodSource) :
    Except BuildError BuiltMethod × Arena × NameTable :=
  match source.types with
  | .error e => (.error (.malformed e), a, table)
  | .ok (types, trace) =>
    let parts := source.parts types trace
    let table := table.internAll (parts.parameterTypes.map (·.text) ++
      parts.throwsTypes.map (·.text) ++ source.name?.toList ++ [types.result.text])
    match addMethod parent source parts a with
    | (.error e, a) => (.error (.unknownParent e), a, table)
    | (.ok id, a) => (.ok ⟨id, parts.parameterTypes, types.typeParameters, trace⟩, a,
        table.internAll (source.parameterNames.take parts.parameterTypes.length))

structure Keeps {α : Type} (call : Growing α) : Prop where
  more : ∀ a : Arena, a.size ≤ (call a).2.size
  sound : ∀ a : Arena, a.Sound → (call a).2.size ≤ 0x100000000 → (call a).2.Sound

theorem keeps_pure {α : Type} (x : α) : Keeps (pure x) := ⟨fun _ => Nat.le_refl _, fun _ h _ => h⟩

theorem keeps_bind {α β : Type} {call : Growing α} {next : α → Growing β} (h : Keeps call)
    (rest : ∀ x, Keeps (next x)) : Keeps (call >>= next) := by
  have run : ∀ a : Arena, (call >>= next) a = match call a with
      | (.ok x, a) => next x a
      | (.error e, a) => (.error e, a) := by
    intro a
    change ExceptT.bindCont next (call a).1 (call a).2 = _
    rcases call a with ⟨e | x, a'⟩ <;> rfl
  refine ⟨fun a => ?_, fun a sound few => ?_⟩
  · have first := h.more a
    rw [run]
    generalize call a = after at first ⊢
    obtain ⟨e | x, a'⟩ := after
    · exact first
    · exact Nat.le_trans first ((rest x).more a')
  · have first := h.sound a sound
    rw [run] at few ⊢
    generalize call a = after at first few ⊢
    obtain ⟨e | x, a'⟩ := after
    · exact first few
    · exact (rest x).sound a' (first (Nat.le_trans ((rest x).more a') few)) few

theorem keeps_add (parent : NodeId) (payload : Payload) : Keeps (add parent payload) := by
  refine ⟨fun a => ?_, fun a sound few => ?_⟩
  · rw [run_add]
    split
    · simp
    · exact Nat.le_refl _
  · rw [run_add] at few ⊢
    split
    · next inside =>
      rw [if_pos inside] at few
      have few : a.size + 1 ≤ 0x100000000 := by simpa using few
      exact sound.grow inside few payload
    · exact sound

theorem keeps_addMethod (parent : NodeId) (source : MethodSource) (parts : MethodParts) :
    Keeps (addMethod parent source parts) := by
  have all : ∀ list payloads, Keeps (List.forM payloads fun payload => do let _ ← add list payload) := by
    intro list payloads
    induction payloads with
    | nil => exact keeps_pure ()
    | cons payload payloads ih => exact keeps_bind (keeps_bind (keeps_add ..) fun _ => keeps_pure ()) fun _ => ih
  unfold addMethod
  refine keeps_bind (keeps_add ..) fun id => keeps_bind (keeps_add ..) fun _ => ?_
  refine keeps_bind (keeps_add ..) fun list => keeps_bind (all list _) fun _ => ?_
  exact keeps_bind (keeps_add ..) fun _ => keeps_pure id

theorem size_buildMethod (a : Arena) (parent : NodeId) (table : NameTable) (source : MethodSource) :
    a.size ≤ (a.buildMethod parent table source).2.1.size := by
  unfold buildMethod
  cases source.types with
  | error e => exact Nat.le_refl _
  | ok r =>
    have more := (keeps_addMethod parent source (source.parts r.1 r.2)).more a
    dsimp only
    generalize addMethod parent source (source.parts r.1 r.2) a = after at more ⊢
    obtain ⟨e | id, a'⟩ := after <;> exact more

theorem Sound.buildMethod {a : Arena} (h : a.Sound) {parent : NodeId} {table : NameTable} {source : MethodSource}
    (few : (a.buildMethod parent table source).2.1.size ≤ 0x100000000) :
    (a.buildMethod parent table source).2.1.Sound := by
  unfold Arena.buildMethod at few ⊢
  cases typed : source.types with
  | error e => exact h
  | ok r =>
    rw [typed] at few
    have sound := (keeps_addMethod parent source (source.parts r.1 r.2)).sound a h
    dsimp only at few ⊢
    generalize addMethod parent source (source.parts r.1 r.2) a = after at sound few ⊢
    obtain ⟨e | id, a'⟩ := after <;> exact sound few

end Arena

def Tree.buildMethod (t : Tree) (parent : NodeId) (table : NameTable) (source : MethodSource) :
    Except BuildError BuiltMethod × Option Tree × NameTable :=
  let built := t.arena.buildMethod parent table source
  (built.1, if few : built.2.1.size ≤ 0x100000000 then
      some ⟨built.2.1, Nat.lt_of_lt_of_le t.nonempty (t.arena.size_buildMethod parent table source), few,
        t.sound.buildMethod few⟩
    else none, built.2.2)

end SymbolCatalog
