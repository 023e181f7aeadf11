import SymbolCatalog.Tree.MethodView

/-! Annotations on the use of a type. Attaching one list of names after another is attaching both in a
row, and names that are there already change nothing; so a return type is resolved once and for all. -/
namespace SymbolCatalog
variable {α : Type} [DecidableEq α]

theorem addAllNewAppend (items more rest : List α) :
    addAllNew (addAllNew items more) rest = addAllNew items (more ++ rest) := List.foldl_append.symm

theorem addAllNewFirst (items more : List α) :
    addAllNew items more = items ++ (more.filter (· ∉ items)).eraseDups := by
  -- On what is added, over any elements that are there: each step adds to them.
  induction more generalizing items with
  | nil => simp [addAllNew]
  | cons a more ih =>
    have step : addAllNew items (a :: more) = addAllNew (addNew items a) more := rfl
    rw [step, ih]
    by_cases there : a ∈ items
    · simp [addNew, there]
    · have later : more.filter (· ∉ items ++ [a]) = (more.filter (· ∉ items)).filter (! · == a) := by
        rw [List.filter_filter]
        refine List.filter_congr fun b _ => ?_
        by_cases same : b = a <;> simp [same]
      rw [addNew, if_neg there, later, List.filter_cons_of_pos (by simpa using there), List.eraseDups_cons,
        List.append_assoc, List.singleton_append]

theorem addAllNewSame {items more : List α} : addAllNew items more = items ↔ more ⊆ items := by
  rw [addAllNewFirst, List.append_right_eq_self, List.eq_nil_iff_forall_not_mem]
  simp [List.subset_def]

namespace TypeRef

theorem annotateTwice (t : TypeRef) (names more : List String) :
    (t.annotate names).annotate more = t.annotate (names ++ more) := by
  unfold annotate
  rw [addAllNewAppend]

theorem annotateNew (t : TypeRef) (names : List String) : t.annotate names =
    { t with annotations := t.annotations ++ (names.filter (· ∉ t.annotations)).eraseDups } := by
  unfold annotate
  rw [addAllNewFirst]

theorem annotateSame {t : TypeRef} {names : List String} : t.annotate names = t ↔ names ⊆ t.annotations := by
  rw [← addAllNewSame]
  cases t
  simp [annotate]

theorem memAnnotated {t : TypeRef} {names : List String} : names ⊆ (t.annotate names).annotations :=
  fun _ mem => mem_addAllNew.2 (.inr mem)

end TypeRef

namespace MethodView

theorem resolvedAnnotated (v : MethodView) : v.resolvedReturn = v.method.returnType.annotate v.typeAnnotations := by
  unfold resolvedReturn
  cases modifiers : v.modifiers? with
  | none =>
    have empty : v.typeAnnotations = [] := by simp [typeAnnotations, modifiers]
    rw [empty]
    rfl
  | some found =>
    obtain ⟨mask, annotations⟩ := found
    dsimp only
    split
    · rfl
    · next none =>
      have empty : v.typeAnnotations = [] := by simpa [typeAnnotations, modifiers] using none
      rw [empty]
      rfl

end MethodView

/-- Attaching annotations keeps all there is of a type and adds the names that are new, each once and in the
order of their first occurrences. The names of a list are attached by one call or by several, and change
nothing exactly if all of them are there. So a resolved return type stays as it is when it is resolved
again, and is the stored one exactly if that has all annotations of the modifier list that apply to it. -/
theorem annotationsAttachedOnce :
    (∀ (t : TypeRef) (names more : List String),
      (t.annotate names).annotate more = t.annotate (names ++ more) ∧
      t.annotate names = { t with annotations := t.annotations ++ (names.filter (· ∉ t.annotations)).eraseDups } ∧
      (t.annotate names).annotate names = t.annotate names ∧
      (t.annotate more = t ↔ more ⊆ t.annotations)) ∧
    ∀ v : MethodView,
      v.resolvedReturn.annotate v.typeAnnotations = v.resolvedReturn ∧
      (v.resolvedReturn = v.method.returnType ↔ v.typeAnnotations ⊆ v.method.returnType.annotations) := by
  refine ⟨fun t names more => ⟨t.annotateTwice names more, t.annotateNew names, ?_, TypeRef.annotateSame⟩,
    fun v => ?_⟩
  · exact TypeRef.annotateSame.2 TypeRef.memAnnotated
  · rw [v.resolvedAnnotated]
    exact ⟨TypeRef.annotateSame.2 TypeRef.memAnnotated, TypeRef.annotateSame⟩

example : (TypeRef.mk "T" 1 true ["A"]).annotate ["B", "A", "C", "B"] = ⟨"T", 1, true, ["A", "B", "C"]⟩ := by decide

end SymbolCatalog
