import SymbolCatalog.Proofs.Record.Reading
import SymbolCatalog.Proofs.Wire.Yields

/-! Records all whose lengths can be told. A record that was read is one of them, whatever bytes it
was read from and in whichever version, and each of them can be written in the newest version. -/
namespace SymbolCatalog
open Wire

namespace RecordFields

structure Sized (f : RecordFields) : Prop where
  name : ∀ text ∈ f.name?, Short text
  type : ∀ t ∈ f.type?, t.Sized
  annotated : f.annotations.length < 2 ^ 64
  annotations : ∀ a ∈ f.annotations, Short a.name
  few : f.types.length < 2 ^ 64
  types : ∀ t ∈ f.types, t.Sized
  default : ∀ text ∈ f.default?, Short text

theorem Sized.coded {f : RecordFields} (h : f.Sized) : f.Coded .two where
  name := readsBack_option fun text mem => readsBackText (h.name text mem)
  type t mem := readsBackType (h.type t mem)
  annotations := readsBack_list (fun a mem => readsBackAnnotation (h.annotations a mem)) h.annotated
  few := h.few
  types t mem := readsBackType (h.types t mem)
  default := readsBack_option fun text mem => readsBackText (h.default text mem)

end RecordFields

namespace Record

inductive Sized : Record → Prop where
  | mk (fields : RecordFields) (children : List Record) (sized : fields.Sized)
      (below : ∀ r ∈ children, Sized r) : Sized (.mk fields children)

theorem readTypeSized (v : RecordVersion) : Yields (readType v) TypeRef.Sized := by
  cases v with
  | one =>
    refine yieldsBind readTextShort fun text short => yieldsBind (yieldsAny _) fun depth _ =>
      yieldsBind (yieldsAny _) fun varargs _ => yieldsPure ⟨short, ?_, nofun⟩
    exact Nat.two_pow_pos 64
  | two =>
    refine yieldsBind readTextShort fun text short => yieldsBind (yieldsAny _) fun depth _ =>
      yieldsBind (yieldsAny _) fun varargs _ => yieldsBind (readListEach readTextShort) ?_
    intro annotations ⟨few, each⟩
    exact yieldsPure ⟨short, few, each⟩

theorem readAnnotationShort : Yields (read : Reader Annotation) fun a => Short a.name :=
  yieldsBind readTextShort fun _ short => yieldsBind (yieldsAny _) fun _ _ => yieldsPure short

theorem readHeadSized (v : RecordVersion) :
    Yields (readHead v) fun f => ∀ default? : Option String, (∀ text ∈ default?, Short text) →
      { f with default? }.Sized := by
  unfold readHead
  refine yieldsBind (yieldsAny _) fun kind _ => yieldsBind (yieldsAny _) fun flags _ =>
    yieldsBind (readOptionEach readTextShort) fun name? name =>
    yieldsBind (readOptionEach (readTypeSized v)) fun type? type =>
    yieldsBind (yieldsAny _) fun mask _ => yieldsBind (readListEach readAnnotationShort) ?_
  intro annotations ⟨annotated, named⟩
  refine yieldsBind (readListEach (readTypeSized v)) ?_
  intro types ⟨few, each⟩
  exact yieldsPure fun default? short => ⟨name, type, annotated, named, few, each, short⟩

theorem readRecordSized (v : RecordVersion) (fuel : Nat) : Yields (readRecord v fuel) Sized := by
  -- The default value comes after the children.
  induction fuel with
  | zero => exact yieldsThrow
  | succ fuel ih =>
    refine yieldsBind (readHeadSized v) fun f head => yieldsBind (readListEach ih) ?_
    intro children ⟨_, below⟩
    refine yieldsBind (readOptionEach readTextShort) fun default? short => ?_
    exact yieldsPure (.mk _ _ (head default? short) below)

theorem ofFileSized {bytes : Bytes} {r : Record} (read : ofFile bytes = .ok r) : r.Sized := by
  obtain ⟨_, version, _, _, _, _, decoded⟩ := ofFileParts read
  exact readRecordSized version _ _ _ _ decoded

end Record
end SymbolCatalog
