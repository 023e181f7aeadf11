import SymbolCatalog.Proofs.Signature.Grammar

/-! What the readers of types take: exactly the written forms of well-formed types. The reader of a
nested class is told for places near the end only, and each level moves the bound by its letter. -/
namespace SymbolCatalog.Signature
variable {c after : Cursor}

theorem readVariableOk {name : String} :
    readVariable c = .ok (name, after) ↔
      Named false name.toList ∧ c.Over ('T' :: (name.toList ++ [';'])) after := by
  have stops : ∀ x ∈ [';'], x ∈ reserved ∧ x ≠ '/' := by simp [reserved]
  unfold readVariable
  rw [overCons]
  simp only [bindOk, expectOk, readNameOk stops, pureOk, overAppend]
  constructor
  · intro h
    obtain ⟨_, m, letter, name', m', ⟨named, taken, _⟩, _, m'', stop, same, place⟩ := h
    subst same
    subst place
    exact ⟨named, m, letter, m', taken, stop⟩
  · intro h
    obtain ⟨named, m, letter, m', taken, stop⟩ := h
    have stopped : ∃ x ∈ [';'], m'.rest.head? = some x := ⟨';', List.mem_singleton_self _, stop.head⟩
    exact ⟨(), m, letter, name, m', ⟨named, taken, stopped⟩, (), after, stop, rfl, rfl⟩

theorem readVarianceOk {variance : Variance} :
    readVariance c = .ok (variance, after) ↔
      c.Over variance.chars after ∧
        (variance = .exact → c.rest.head? ≠ some '+' ∧ c.rest.head? ≠ some '-') := by
  unfold readVariance
  simp only [eatOk, pureOk]
  cases variance with
  | covariant => simp [Variance.chars]
  | contravariant => 
    simp [Variance.chars]
    intro h
    rw [h.head]
    decide
  | exact => 
    simp [Variance.chars, overNil]
    tauto

theorem readTyClass {nested : Reader ClassTy} (head : c.rest.head? = some 'L') :
    readTy nested c = (Ty.classType 0 <$> nested) c := by
  have flat := readDepthNone (c := c) (by simp [head])
  unfold readTy
  rw [bindOf flat, peekOk, head]
  rfl

theorem readTyVariable {nested : Reader ClassTy} (head : c.rest.head? = some 'T') :
    readTy nested c = (Ty.variable 0 <$> readVariable) c := by
  have flat := readDepthNone (c := c) (by simp [head])
  unfold readTy
  rw [bindOf flat, peekOk, head]
  rfl

theorem readReferenceEq {nested : Reader ClassTy} {t : Ty} :
    readReference nested c = .ok (t, after) ↔
      (∃ x, c.rest.head? = some x ∧ (x = '[' ∨ x = 'L' ∨ x = 'T')) ∧ readTy nested c = .ok (t, after) := by
  unfold readReference
  rw [peekOk]
  generalize letter : c.rest.head? = letter?
  split
  · rw [readTyClass letter]
    simp
  · rw [readTyVariable letter]
    simp
  · simp
  · next notClass notVariable notArray =>
    rw [refuseOk, false_iff]
    intro h
    obtain ⟨⟨x, head, rfl | rfl | rfl⟩, _⟩ := h
    · exact notArray head
    · exact notClass head
    · exact notVariable head

theorem readThrownEq {nested : Reader ClassTy} {t : Ty} :
    readThrown nested c = .ok (t, after) ↔
      (∃ x, c.rest.head? = some x ∧ (x = 'L' ∨ x = 'T')) ∧ readTy nested c = .ok (t, after) := by
  unfold readThrown
  rw [peekOk]
  generalize letter : c.rest.head? = letter?
  split
  · rw [readTyClass letter]
    simp
  · rw [readTyVariable letter]
    simp
  · next notClass notVariable =>
    rw [refuseOk, false_iff]
    intro h
    obtain ⟨⟨x, head, rfl | rfl⟩, _⟩ := h
    · exact notClass head
    · exact notVariable head

def Cursor.NoReference (c : Cursor) : Prop :=
  ∀ x, c.rest.head? = some x → ¬ (x = '[' ∨ x = 'L' ∨ x = 'T')

theorem readClassBoundEq {nested : Reader ClassTy} {bound? : Option Ty} :
    readClassBound nested c = .ok (bound?, after) ↔
      match bound? with
      | none => c.NoReference ∧ after = c
      | some t => readReference nested c = .ok (t, after) := by
  unfold readClassBound Cursor.NoReference
  rw [peekOk]
  generalize letter : c.rest.head? = letter?
  split
  · rw [mapOk]
    cases bound? <;> simp
  · rw [mapOk]
    cases bound? <;> simp
  · rw [mapOk]
    cases bound? <;> simp
  · next notClass notVariable notArray =>
    have other : ∀ x, letter? = some x → ¬ (x = '[' ∨ x = 'L' ∨ x = 'T') := by
      intro x head h
      obtain rfl | rfl | rfl := h
      · exact notArray head
      · exact notClass head
      · exact notVariable head
    rw [pureOk]
    cases bound? with
    | none =>
      constructor
      · intro h
        exact ⟨other, h.2⟩
      · intro h
        exact ⟨rfl, h.2⟩
    | some t =>
      simp only [readReferenceEq, letter, reduceCtorEq, false_and, false_iff]
      intro h
      obtain ⟨⟨x, head, letters⟩, _⟩ := h
      exact other x head letters

/- Within `n` characters of the end, a reader takes exactly the written forms of classes. -/
def Exact (nested : Reader ClassTy) (n : Nat) : Prop :=
  ∀ c type after, c.rest.length ≤ n →
    (nested c = .ok (type, after) ↔ type.WellFormed true ∧ c.Over ('L' :: type.chars) after)

theorem readLetterOk (depth : UInt8) {p : Primitive} {t : Ty} (head : c.rest.head? = some p.tag) :
    (Reader.advance >>= fun _ => pure (Ty.primitive depth p)) c = .ok (t, after) ↔
      t = .primitive depth p ∧ c.Over [p.tag] after := by
  rw [bindOk]
  constructor
  · rintro ⟨_, m, taken, read⟩
    obtain ⟨rfl, rfl⟩ := pureOk.mp read
    exact ⟨rfl, (advanceOk head).mp taken⟩
  · rintro ⟨rfl, taken⟩
    exact ⟨(), after, (advanceOk head).mpr taken, rfl⟩

theorem tagNoBracket {p : Primitive} (head : c.rest.head? = some p.tag) : c.rest.head? ≠ some '[' := by
  simp [head, (tagLetter p).1]

section
variable {nested : Reader ClassTy} {n : Nat} (inner : Exact nested n)
include inner

theorem readTyOk {t : Ty} (left : c.rest.length ≤ n) :
    readTy nested c = .ok (t, after) ↔ t.WellFormed ∧ c.Over t.chars after := by
  unfold readTy
  rw [bindOk]
  simp only [readDepthOk, peekOk]
  constructor
  · intro h
    obtain ⟨depth, m, ⟨brackets, _⟩, h⟩ := h
    have left' : m.rest.length ≤ n := by
      have length := brackets.length
      omega
    generalize head : m.rest.head? = letter? at h
    split at h
    · cases h
    · obtain ⟨type, read, same⟩ := mapOk.mp h
      obtain ⟨wellFormed, taken⟩ := (inner _ _ _ left').mp read
      subst same
      rw [Ty.WellFormed, Ty.chars, overAppend]
      exact ⟨wellFormed, m, brackets, taken⟩
    · obtain ⟨name, read, same⟩ := mapOk.mp h
      obtain ⟨named, taken⟩ := readVariableOk.mp read
      subst same
      rw [Ty.WellFormed, Ty.chars, overAppend]
      exact ⟨named, m, brackets, taken⟩
    · next letter _ _ =>
      generalize found : Primitive.ofTag? letter = p? at h
      cases p? with
      | none => cases h
      | some p =>
        rw [Primitive.tag_of_ofTag? found] at head
        obtain ⟨same, taken⟩ := (readLetterOk depth head).mp h
        subst same
        rw [Ty.WellFormed, Ty.chars, overAppend]
        exact ⟨trivial, m, brackets, taken⟩
  · intro h
    obtain ⟨wellFormed, taken⟩ := h
    rw [t.charsElement, overAppend] at taken
    obtain ⟨m, brackets, taken⟩ := taken
    have left' : m.rest.length ≤ n := by
      have length := brackets.length
      omega
    cases t with
    | primitive depth p =>
      have head : m.rest.head? = some p.tag := taken.head
      refine ⟨depth, m, ⟨brackets, tagNoBracket head⟩, ?_⟩
      have read := (readLetterOk depth head).mpr ⟨rfl, taken⟩
      rw [head]
      cases p <;> exact read
    | «variable» depth name =>
      have head : m.rest.head? = some 'T' := taken.head
      refine ⟨depth, m, ⟨brackets, by simp [head]⟩, ?_⟩
      rw [head]
      rw [Ty.WellFormed] at wellFormed
      exact mapOk.mpr ⟨name, readVariableOk.mpr ⟨wellFormed, taken⟩, rfl⟩
    | classType depth type =>
      have head : m.rest.head? = some 'L' := taken.head
      refine ⟨depth, m, ⟨brackets, by simp [head]⟩, ?_⟩
      rw [head]
      rw [Ty.WellFormed] at wellFormed
      exact mapOk.mpr ⟨type, (inner _ _ _ left').mpr ⟨wellFormed, taken⟩, rfl⟩

theorem readTyWhere {t : Ty} {Meant : Prop} {letters : Char → Prop} (left : c.rest.length ≤ n)
    (told : c.Over t.chars after → ∃ x, c.rest.head? = some x ∧ (Meant ↔ letters x)) :
    ((∃ x, c.rest.head? = some x ∧ letters x) ∧ readTy nested c = .ok (t, after)) ↔
      (t.WellFormed ∧ Meant) ∧ c.Over t.chars after := by
  rw [readTyOk inner left]
  constructor
  · intro h
    obtain ⟨⟨x, head, letter⟩, wellFormed, taken⟩ := h
    obtain ⟨y, head', sort⟩ := told taken
    have same : x = y := Option.some.inj (head.symm.trans head')
    exact ⟨⟨wellFormed, sort.mpr (same ▸ letter)⟩, taken⟩
  · intro h
    obtain ⟨⟨wellFormed, holds⟩, taken⟩ := h
    obtain ⟨x, head, sort⟩ := told taken
    exact ⟨⟨x, head, sort.mp holds⟩, wellFormed, taken⟩

theorem readReferenceOk {t : Ty} (left : c.rest.length ≤ n) :
    readReference nested c = .ok (t, after) ↔ (t.WellFormed ∧ t.IsReference) ∧ c.Over t.chars after := by
  rw [readReferenceEq]
  refine readTyWhere inner left fun taken => ?_
  obtain ⟨x, head, _, reference, _⟩ := taken.headOfType
  exact ⟨x, head, reference⟩

theorem readThrownOk {t : Ty} (left : c.rest.length ≤ n) :
    readThrown nested c = .ok (t, after) ↔ (t.WellFormed ∧ t.IsThrown) ∧ c.Over t.chars after := by
  rw [readThrownEq]
  refine readTyWhere inner left fun taken => ?_
  obtain ⟨x, head, _, _, thrown⟩ := taken.headOfType
  exact ⟨x, head, thrown⟩

end

end SymbolCatalog.Signature
