import SymbolCatalog.Proofs.Signature.Types

/-! What the readers of lists of types take, whatever the sort of types: types after a mark each,
parameters between parentheses, and the result behind them. -/
namespace SymbolCatalog.Signature
variable {c after : Cursor} {n : Nat}

/- Within `n` characters of the end, a reader takes exactly the written forms of some types. -/
def Takes (item : Reader Ty) (n : Nat) (Good : Ty → Prop) : Prop :=
  ∀ c t after, c.rest.length ≤ n → (item c = .ok (t, after) ↔ Good t ∧ c.Over t.chars after)

section
variable {item : Reader Ty} {Good : Ty → Prop} (takes : Takes item n Good)
include takes

theorem readMarkedOk {mark : Char} {fuel : Nat} {before all : List Ty} (left : c.rest.length ≤ n)
    (enough : c.rest.length ≤ fuel) :
    readMarked mark item fuel before c = .ok (all, after) ↔
      ∃ types, all = before.reverse ++ types ∧ (∀ t ∈ types, Good t) ∧
        c.Over (types.flatMap fun t => mark :: t.chars) after ∧ after.rest.head? ≠ some mark := by
  induction fuel generalizing c before with
  | zero =>
    have empty : c.rest = [] := List.length_eq_zero_iff.mp (Nat.le_zero.mp enough)
    rw [readMarked, pureOk]
    constructor
    · intro h
      obtain ⟨same, place⟩ := h
      subst place
      exact ⟨[], by rw [← same, List.append_nil], by simp, overNil.mpr rfl, by simp [empty]⟩
    · intro h
      obtain ⟨types, same, _, taken, _⟩ := h
      cases types with
      | nil =>
        rw [List.append_nil] at same
        exact ⟨same.symm, overNil.mp taken⟩
      | cons t types =>
        have head := taken.head
        rw [empty] at head
        cases head
  | succ fuel ih =>
    rw [readMarked, eatOk]
    constructor
    · intro h
      obtain ⟨m, marked, h⟩ | ⟨other, h⟩ := h
      · have length := marked.length
        rw [List.length_singleton] at length
        obtain ⟨t, m', read, more⟩ := bindOk.mp h
        obtain ⟨good, written⟩ := (takes _ _ _ (by omega)).mp read
        have length' := written.length
        obtain ⟨types, same, allGood, taken, stop⟩ := (ih (by omega) (by omega)).mp more
        rw [List.reverse_cons, List.append_assoc, List.singleton_append] at same
        refine ⟨t :: types, same, List.forall_mem_cons.mpr ⟨good, allGood⟩, ?_, stop⟩
        rw [List.flatMap_cons, overAppend]
        exact ⟨m', overCons.mpr ⟨m, marked, written⟩, taken⟩
      · obtain ⟨same, place⟩ := pureOk.mp h
        subst place
        exact ⟨[], by rw [← same, List.append_nil], by simp, overNil.mpr rfl, other⟩
    · intro h
      obtain ⟨types, same, allGood, taken, stop⟩ := h
      cases types with
      | nil =>
        have place := overNil.mp taken
        subst place
        rw [List.append_nil] at same
        exact .inr ⟨stop, pureOk.mpr ⟨same.symm, rfl⟩⟩
      | cons t types =>
        obtain ⟨good, allGood⟩ := List.forall_mem_cons.mp allGood
        rw [List.flatMap_cons, overAppend] at taken
        obtain ⟨m', front, taken⟩ := taken
        obtain ⟨m, marked, written⟩ := overCons.mp front
        have length := marked.length
        have length' := written.length
        rw [List.length_singleton] at length
        have read := (takes _ _ _ (by omega)).mpr ⟨good, written⟩
        have same' : all = (t :: before).reverse ++ types := by
          rw [same, List.reverse_cons, List.append_assoc, List.singleton_append]
        have rest := (ih (by omega) (by omega)).mpr ⟨types, same', allGood, taken, stop⟩
        exact .inl ⟨m, marked, bindOk.mpr ⟨t, m', read, rest⟩⟩

theorem readAllMarkedOk {mark : Char} {types : List Ty} (left : c.rest.length ≤ n) :
    readAllMarked mark item c = .ok (types, after) ↔
      (∀ t ∈ types, Good t) ∧ c.Over (types.flatMap fun t => mark :: t.chars) after ∧
        after.rest.head? ≠ some mark := by
  unfold readAllMarked
  rw [readMarkedOk takes left (Nat.le_refl _)]
  simp

theorem readParametersOk {fuel : Nat} {before all : List Ty} (left : c.rest.length ≤ n)
    (enough : c.rest.length ≤ fuel) :
    readParameters item fuel before c = .ok (all, after) ↔
      ∃ types, all = before.reverse ++ types ∧ (∀ t ∈ types, Good t) ∧
        c.Over (types.flatMap Ty.chars ++ [')']) after := by
  induction fuel generalizing c before with
  | zero =>
    rw [readParameters]
    constructor
    · intro h
      exact absurd h (refusedAtEnd enough)
    · intro h
      obtain ⟨types, _, _, taken⟩ := h
      exact absurd taken (overAtEnd enough)
  | succ fuel ih =>
    rw [readParameters, eatOk]
    constructor
    · intro h
      obtain ⟨m, close, h⟩ | ⟨_, h⟩ := h
      · obtain ⟨same, place⟩ := pureOk.mp h
        subst place
        exact ⟨[], by rw [← same, List.append_nil], by simp, close⟩
      · rw [atEndOk] at h
        split at h
        · cases h
        · obtain ⟨t, m, read, more⟩ := bindOk.mp h
          obtain ⟨good, written⟩ := (takes _ _ _ left).mp read
          have length := written.length
          have room := t.charsLength
          obtain ⟨types, same, allGood, taken⟩ := (ih (by omega) (by omega)).mp more
          rw [List.reverse_cons, List.append_assoc, List.singleton_append] at same
          refine ⟨t :: types, same, List.forall_mem_cons.mpr ⟨good, allGood⟩, ?_⟩
          rw [List.flatMap_cons, List.append_assoc, overAppend]
          exact ⟨m, written, taken⟩
    · intro h
      obtain ⟨types, same, allGood, taken⟩ := h
      cases types with
      | nil =>
        rw [List.append_nil] at same
        exact .inl ⟨after, taken, pureOk.mpr ⟨same.symm, rfl⟩⟩
      | cons t types =>
        obtain ⟨good, allGood⟩ := List.forall_mem_cons.mp allGood
        rw [List.flatMap_cons, List.append_assoc, overAppend] at taken
        obtain ⟨m, written, taken⟩ := taken
        have length := written.length
        have room := t.charsLength
        obtain ⟨x, head, ⟨_, other⟩, _⟩ := written.headOfType
        have read := (takes _ _ _ left).mpr ⟨good, written⟩
        refine .inr ⟨by simpa [head] using other, ?_⟩
        rw [atEndOk, if_neg (by omega)]
        have same' : all = (t :: before).reverse ++ types := by
          rw [same, List.reverse_cons, List.append_assoc, List.singleton_append]
        exact bindOk.mpr ⟨t, m, read, (ih (by omega) (by omega)).mpr ⟨types, same', allGood, taken⟩⟩

theorem readParameterListOk {types : List Ty} (left : c.rest.length ≤ n) :
    readParameterList item c = .ok (types, after) ↔
      (∀ t ∈ types, Good t) ∧ c.Over ('(' :: (types.flatMap Ty.chars ++ [')'])) after := by
  unfold readParameterList
  rw [bindOk, overCons]
  simp only [expectOk]
  constructor
  · intro h
    obtain ⟨_, m, bracket, h⟩ := h
    have length := bracket.length
    obtain ⟨types', same, allGood, taken⟩ := (readParametersOk takes (by omega) (Nat.le_refl _)).mp h
    rw [List.reverse_nil, List.nil_append] at same
    subst same
    exact ⟨allGood, m, bracket, taken⟩
  · intro h
    obtain ⟨allGood, m, bracket, taken⟩ := h
    have length := bracket.length
    exact ⟨(), m, bracket, (readParametersOk takes (by omega) (Nat.le_refl _)).mpr ⟨types, rfl, allGood, taken⟩⟩

theorem readResultOk {result? : Option Ty} (left : c.rest.length ≤ n) :
    readResult item c = .ok (result?, after) ↔ (∀ t ∈ result?, Good t) ∧ c.Over (resultChars result?) after := by
  unfold readResult
  rw [eatOk, mapOk]
  cases result? with
  | none => simp [pureOk, resultChars]
  | some t =>
    simp only [pureOk, resultChars]
    constructor
    · intro h
      obtain ⟨m, _, same, _⟩ | ⟨_, t', read, same⟩ := h
      · cases same
      · cases same
        obtain ⟨good, written⟩ := (takes _ _ _ left).mp read
        exact ⟨by simpa using good, written⟩
    · intro h
      obtain ⟨good, written⟩ := h
      obtain ⟨x, head, ⟨other, _⟩, _⟩ := Cursor.Over.headOfType written
      exact .inr ⟨by simpa [head] using other, t, (takes _ _ _ left).mpr ⟨good t rfl, written⟩, rfl⟩

end

section
variable {nested : Reader ClassTy} (inner : Exact nested n)
include inner

theorem readTyTakes : Takes (readTy nested) n Ty.WellFormed := fun _ _ _ left => readTyOk inner left

theorem readReferenceTakes : Takes (readReference nested) n fun t => t.WellFormed ∧ t.IsReference :=
  fun _ _ _ left => readReferenceOk inner left

theorem readThrownTakes : Takes (readThrown nested) n fun t => t.WellFormed ∧ t.IsThrown :=
  fun _ _ _ left => readThrownOk inner left

end

end SymbolCatalog.Signature
