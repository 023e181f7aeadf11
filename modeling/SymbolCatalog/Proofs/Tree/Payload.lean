import SymbolCatalog.Proofs.Ends
import SymbolCatalog.Proofs.Record.Sizes

/-! What a node carries reads back from the fields of its record, into any table of names, except
that a type which is variadic without being an array is not variadic afterwards. -/
namespace SymbolCatalog
open ExceptT Wire

def TypeRef.settled (t : TypeRef) : TypeRef := .ofParts t.text t.depth t.varargs t.annotations

theorem TypeRef.settledArray {t : TypeRef} (h : t.varargs → 0 < t.depth) : t.settled = t := by
  obtain ⟨text, depth, varargs, annotations⟩ := t
  cases varargs with
  | false => rfl
  | true =>
    have array : decide (0 < depth) = true := decide_eq_true (h rfl)
    simp [TypeRef.settled, TypeRef.ofParts, array]

namespace Payload

def types : Payload → List TypeRef
  | .field _ type _ _ => [type]
  | .method m => [m.returnType]
  | .parameter _ type => [type]
  | .throwsList types => types
  | _ => []

def texts : Payload → List String
  | .file package? => package?.toList
  | .classDecl name _ => [name]
  | .field name type _ initializer? => name :: type.texts ++ initializer?.toList
  | .method m => m.name?.toList ++ m.returnType.texts ++ m.default?.toList
  | .parameterList => []
  | .parameter name? type => name?.toList ++ type.texts
  | .modifierList _ annotations => annotations.map (·.name)
  | .throwsList types => types.flatMap (·.texts)

def settled : Payload → Payload
  | .field name type flags initializer? => .field name type.settled flags initializer?
  | .method m => .method { m with returnType := m.returnType.settled }
  | .parameter name? type => .parameter name? type.settled
  | .throwsList types => .throwsList (types.map (·.settled))
  | p => p

theorem kindSettled (p : Payload) : p.settled.kind = p.kind := by cases p <;> rfl

theorem nameSettled (p : Payload) : p.settled.name? = p.name? := by cases p <;> rfl

theorem settledArrays {p : Payload} (h : ∀ t ∈ p.types, t.varargs → 0 < t.depth) : p.settled = p := by
  cases p with
  | field name type flags initializer? =>
    have same := TypeRef.settledArray (h type (.head _))
    simp [settled, same]
  | method m =>
    have same := TypeRef.settledArray (h m.returnType (.head _))
    simp [settled, same]
  | parameter name? type =>
    have same := TypeRef.settledArray (h type (.head _))
    simp [settled, same]
  | throwsList types =>
    have same : types.map (·.settled) = types.map id :=
      List.map_congr_left fun t mem => TypeRef.settledArray (h t mem)
    simp [settled, same]
  | file | classDecl | parameterList | modifierList => rfl

end Payload

namespace RecordFields

def texts (f : RecordFields) : List String :=
  f.name?.toList ++ (f.type?.toList ++ f.types).flatMap (·.texts) ++ f.annotations.map (·.name) ++
    f.default?.toList

theorem typePart {f : RecordFields} {t : TypeRef} (mem : t ∈ f.type?.toList ++ f.types) :
    t.texts.Sublist f.texts := by
  have part : t.texts.Sublist ((f.type?.toList ++ f.types).flatMap (·.texts)) :=
    List.sublist_flatten_of_mem (List.mem_map_of_mem mem)
  unfold texts
  rw [List.append_assoc]
  exact ((part.trans (List.sublist_append_right _ _)).trans (List.sublist_append_left _ _))

theorem sized {f : RecordFields} (h : Storable f.texts) : f.Sized where
  name text mem := h.short text (by simp [texts, Option.mem_def.1 mem])
  type t mem := (h.subset (typePart (by simp [Option.mem_def.1 mem]))).sized
  annotated := by
    have few : f.annotations.length ≤ f.texts.length := by
      simp only [texts, List.length_append, List.length_map]
      omega
    exact Nat.lt_of_le_of_lt few h.few
  annotations a mem := by
    have mem : a.name ∈ f.annotations.map (·.name) := List.mem_map_of_mem mem
    refine h.short _ ?_
    simp only [texts, List.mem_append]
    exact .inl (.inr mem)
  few := by
    have few : f.types.length ≤ (f.types.flatMap (·.texts)).length := by
      induction f.types with
      | nil => simp
      | cons t types ih =>
        have some : t.texts.length = t.annotations.length + 1 := rfl
        simp only [List.flatMap_cons, List.length_append, List.length_cons]
        omega
    have all := h.few
    simp only [texts, List.flatMap_append, List.length_append] at all
    omega
  types t mem := (h.subset (typePart (List.mem_append_right _ mem))).sized
  default text mem := h.short text (by simp [texts, Option.mem_def.1 mem])

end RecordFields

theorem Payload.fieldsTexts (p : Payload) : p.fields.texts = p.texts := by
  cases p <;> simp [Payload.fields, RecordFields.texts, Payload.texts]

namespace Record

theorem endsInternName? {name? : Option String} {table : NameTable} :
    (name?.mapM internName).Ends table (fun found _ => found = name?) fun _ => False := by
  cases name? <;> rfl

theorem endsInternType {t : TypeRef} {table : NameTable} :
    (internType t).Ends table (fun found _ => found = t.settled) fun _ => False := rfl

theorem endsPayload (p : Payload) (table : NameTable) :
    (payload p.fields).Ends table (fun found _ => found = p.settled) fun _ => False := by
  unfold payload Payload.fields
  cases p with
  | file package? => exact endsMap (endsInternName?.weaken (fun _ _ same => congrArg _ same) fun _ => id)
  | classDecl name flags => rfl
  | field name type flags initializer? => rfl
  | method m =>
    have rest : ∀ kind, (do
        let name? ← m.name?.mapM internName
        let type ← requireType kind (some m.returnType)
        pure (Payload.method ⟨name?, m.flags, type, m.default?⟩) : Interning Payload).Ends table
          (fun found _ => found = (Payload.method m).settled) fun _ => False := by
      intro kind
      refine endsBind (endsInternName?.weaken (fun found _ same => ?_) fun _ => id)
      subst same
      rfl
    cases sort : m.flags.isAnnotationMethod with
    | true =>
      have kind : (Payload.method m).kind = .annotationMethod := if_pos sort
      rw [kind]
      simp only [Kind.ofTag?_tag, sort]
      exact rest .annotationMethod
    | false =>
      have kind : (Payload.method m).kind = .method := if_neg (by simp [sort])
      rw [kind]
      simp only [Kind.ofTag?_tag, sort]
      exact rest .method
  | parameterList => rfl
  | parameter name? type =>
    refine endsBind (endsInternName?.weaken (fun found _ same => ?_) fun _ => id)
    subst same
    rfl
  | modifierList mask annotations => rfl
  | throwsList types =>
    refine endsMap ((endsMapM (fun t _ table => endsInternType) table).weaken ?_ fun _ => id)
    intro found _ same
    exact congrArg _ same

end Record
end SymbolCatalog
