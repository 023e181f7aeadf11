import SymbolCatalog.Proofs.Within
import SymbolCatalog.Record.File

/-! The names that are known have no part in what bytes decode to: names are entered while a tree is
built, and never asked for. -/
namespace SymbolCatalog
open ExceptT

namespace Record

abbrev Nameless {α : Type} (call : Interning α) : Prop :=
  call.Within (fun _ => ()) fun _ => ()

theorem namelessName (name : String) : Nameless (internName name) := fun _ _ _ => ⟨rfl, rfl, rfl⟩

theorem namelessType (t : TypeRef) : Nameless (internType t) := fun _ _ _ => ⟨rfl, rfl, rfl⟩

theorem namelessName? (name? : Option String) : Nameless (name?.mapM internName) := by
  cases name? with
  | none => exact withinPure
  | some name => exact withinMap (namelessName name)

theorem namelessRequireName (kind : Kind) (name? : Option String) : Nameless (requireName kind name?) := by
  cases name? with
  | none => exact withinThrow
  | some name => exact namelessName name

theorem namelessRequireType (kind : Kind) (type? : Option TypeRef) : Nameless (requireType kind type?) := by
  cases type? with
  | none => exact withinThrow
  | some type => exact namelessType type

theorem namelessPayload (f : RecordFields) : Nameless (payload f) := by
  have method : ∀ kind, Nameless (do
      let name? ← f.name?.mapM internName
      let type ← requireType kind f.type?
      pure (Payload.method ⟨name?, ⟨f.flags⟩, type, f.default?⟩)) := fun kind =>
    withinBind (namelessName? _) fun _ => withinBind (namelessRequireType kind _) fun _ => withinPure
  unfold payload
  cases Kind.ofTag? f.kind with
  | none => exact withinThrow
  | some kind =>
    cases kind with
    | file => exact withinMap (namelessName? _)
    | classDecl => exact withinBind (namelessRequireName _ _) fun _ => withinPure
    | field =>
      exact withinBind (namelessRequireName _ _) fun _ => withinBind (namelessRequireType _ _) fun _ => withinPure
    | method =>
      dsimp only
      split
      · exact withinThrow
      · exact method .method
    | annotationMethod =>
      dsimp only
      split
      · exact withinThrow
      · exact method .annotationMethod
    | parameterList => exact withinPure
    | parameter => exact withinBind (namelessName? _) fun _ => withinBind (namelessRequireType _ _) fun _ => withinPure
    | modifierList => exact fun _ _ _ => ⟨rfl, rfl, rfl⟩
    | throwsList => exact withinMap (withinMapM namelessType)

mutual

theorem namelessAttach (r : Record) (t : Tree) (parent : NodeId) : Nameless (attach t parent r) := by
  obtain ⟨fields, children⟩ := r
  rw [attach]
  refine withinBind (namelessPayload fields) fun p => ?_
  cases t.addChild parent p with
  | error e => exact withinThrow
  | ok result => exact namelessAttachAll children result.2 result.1

theorem namelessAttachAll (rs : List Record) (t : Tree) (parent : NodeId) : Nameless (attachAll t parent rs) := by
  match rs with
  | [] => exact withinPure
  | r :: rest =>
    rw [attachAll]
    exact withinBind (namelessAttach r t parent) fun t' => namelessAttachAll rest t' parent

end

theorem namelessTree (r : Record) : Nameless r.tree := by
  obtain ⟨fields, children⟩ := r
  exact withinBind (namelessPayload fields) fun p => namelessAttachAll children _ _

end Record

def Tree.read (bytes : Bytes) : Except Record.Fault Tree := (Tree.decode bytes .empty).1

theorem Tree.decodeRead (bytes : Bytes) (table : NameTable) : (Tree.decode bytes table).1 = Tree.read bytes := by
  unfold read decode
  cases Record.ofFile bytes with
  | error e => rfl
  | ok record => exact (Record.namelessTree record table .empty rfl).1

end SymbolCatalog
