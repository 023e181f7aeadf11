import SymbolCatalog.NameIndex.Basic
import SymbolCatalog.Proofs.Text.Utf8
import SymbolCatalog.Wire.Lemmas

/-! Texts, references to types, annotations and ids read back as soon as each text in them has fewer
than 2^64 bytes and each list fewer than 2^64 elements. -/
namespace SymbolCatalog
open Wire

def Short (text : String) : Prop := (Text.Utf8.encode text).length < 2 ^ 64

instance (text : String) : Decidable (Short text) := inferInstanceAs (Decidable (_ < _))

theorem readsBackText {text : String} (short : Short text) : ReadsBack text := by
  intro rest
  have bytes := readBytes_append (Text.Utf8.encode text) rest
  have length : ∀ more, readTextLength (writeVarint (Text.Utf8.encode text).length ++ more) =
      .ok ((Text.Utf8.encode text).length, more) := by
    intro more
    unfold readTextLength
    exact readVarint_write (.inr ⟨short, Nat.le_refl 8⟩) _ more
  change readText (writeVarint (Text.Utf8.encode text).length ++ Text.Utf8.encode text ++ rest) = _
  unfold readText
  rw [List.append_assoc, bind_eq (length _), bind_eq bytes, Text.Utf8.decodeEncode]
  rfl

theorem readsBackFile (file : FileId) : ReadsBack file :=
  fun rest => map_eq (readsBack_word file.raw rest)

theorem readsBackNode (node : NodeId) : ReadsBack node :=
  fun rest => map_eq (readsBack_word node.raw rest)

theorem readsBackReference (reference : Reference) : ReadsBack reference := by
  intro rest
  change (read >>= fun file => read >>= fun node => pure (Reference.mk file node))
    (write reference.file ++ write reference.node ++ rest) = _
  rw [List.append_assoc, bind_eq (readsBackFile _ _), bind_eq (readsBackNode _ rest)]
  rfl

def TypeRef.texts (t : TypeRef) : List String := t.text :: t.annotations

structure Storable (texts : List String) : Prop where
  few : texts.length < 2 ^ 64
  short : ∀ text ∈ texts, Short text

instance (texts : List String) : Decidable (Storable texts) :=
  decidable_of_iff (texts.length < 2 ^ 64 ∧ ∀ text ∈ texts, Short text)
    ⟨fun h => ⟨h.1, h.2⟩, fun h => ⟨h.few, h.short⟩⟩

theorem Storable.subset {texts more : List String} (h : Storable more) (sub : texts.Sublist more) :
    Storable texts :=
  ⟨Nat.lt_of_le_of_lt sub.length_le h.few, fun text mem => h.short text (sub.subset mem)⟩

structure TypeRef.Sized (t : TypeRef) : Prop where
  text : Short t.text
  few : t.annotations.length < 2 ^ 64
  annotations : ∀ name ∈ t.annotations, Short name

theorem Storable.sized {t : TypeRef} (h : Storable t.texts) : t.Sized where
  text := h.short _ (.head _)
  few := (h.subset (List.sublist_cons_self _ _)).few
  annotations name mem := h.short name (.tail _ mem)

theorem readsBackType {t : TypeRef} (h : t.Sized) : ReadsBack t := by
  intro rest
  have text : ReadsBack t.text := readsBackText h.text
  have annotations : ReadsBack t.annotations :=
    readsBack_list (fun name mem => readsBackText (h.annotations name mem)) h.few
  change (read >>= fun text => read >>= fun depth => read >>= fun varargs => read >>= fun annotations =>
      pure (TypeRef.mk text depth varargs annotations))
    (write t.text ++ write t.depth ++ write t.varargs ++ write t.annotations ++ rest) = _
  simp only [List.append_assoc]
  rw [bind_eq (text _), bind_eq (readsBack_byte _ _), bind_eq (readsBack_bool _ _),
    bind_eq (annotations rest)]
  rfl

theorem readsBackAnnotation {a : Annotation} (h : Short a.name) : ReadsBack a := by
  intro rest
  change (read >>= fun name => read >>= fun typeUse => pure ⟨name, typeUse⟩ : Reader Annotation)
    (write a.name ++ write a.typeUse ++ rest) = _
  rw [List.append_assoc, bind_eq (readsBackText h _), bind_eq (readsBack_bool _ rest)]
  rfl

end SymbolCatalog
