import SymbolCatalog.Proofs.Signature.Classes
import SymbolCatalog.Proofs.Signature.Lists
import SymbolCatalog.Signature.Method

/-! Whole signatures are read exactly: a text is accepted if and only if it is the written form of a
well-formed signature, and the types read from it are those of that signature. -/
namespace SymbolCatalog.Signature
variable {c after : Cursor} {n : Nat}

/- What does not stand behind a type parameter: one more bound, or a class bound after no bounds. -/
def TypeParameter.Ends (p : TypeParameter) (after : Cursor) : Prop :=
  after.rest.head? ≠ some ':' ∧ (p.bounds = [] → after.NoReference)

theorem boundLeftOut {p : TypeParameter} {m : Cursor}
    (taken : m.Over (p.interfaceBounds.flatMap fun t => ':' :: t.chars) after) :
    (p.classBound? = none → m.NoReference) ↔ (p.bounds = [] → after.NoReference) := by
  unfold TypeParameter.bounds Cursor.NoReference
  cases interfaces : p.interfaceBounds with
  | nil =>
    rw [interfaces] at taken
    rw [overNil.mp taken]
    simp
  | cons t more =>
    rw [interfaces] at taken
    have head : m.rest.head? = some ':' := taken.head
    simp [head]

theorem separateEnds {p : TypeParameter} {params : List TypeParameter} (allGood : ∀ q ∈ params, q.WellFormed)
    (taken : c.Over (params.flatMap TypeParameter.chars ++ ['>']) after) :
    p.Ends c ↔ ∀ q ∈ params.head?, p.Separate q := by
  unfold TypeParameter.Ends TypeParameter.Separate Cursor.NoReference
  cases params with
  | nil =>
    have head : c.rest.head? = some '>' := taken.head
    simp [head]
  | cons q params =>
    obtain ⟨x, more, front, first, plain⟩ := (allGood q List.mem_cons_self).front
    rw [List.flatMap_cons, front] at taken
    have head : c.rest.head? = some x := taken.head
    have notColon : x ≠ ':' := by
      intro same
      rw [same] at plain
      exact plain (by simp [reserved])
    have notBracket : x ≠ '[' := by
      intro same
      rw [same] at plain
      exact plain (by simp [reserved])
    simp [head, first, notColon, notBracket]

def declaredChars (params : List TypeParameter) : List Char :=
  if params.isEmpty then [] else '<' :: (params.flatMap TypeParameter.chars ++ ['>'])

theorem MethodSignature.charsParts (s : MethodSignature) :
    s.chars = declaredChars s.typeParameters ++ ('(' :: (s.parameters.flatMap Ty.chars ++ [')']) ++
      (resultChars s.result? ++ s.throwsTypes.flatMap fun thrown => '^' :: thrown.chars)) := by
  simp [MethodSignature.chars, declaredChars]

section
variable {nested : Reader ClassTy} (inner : Exact nested n)
include inner

theorem readClassBoundOk {bound? : Option Ty} (left : c.rest.length ≤ n) :
    readClassBound nested c = .ok (bound?, after) ↔
      (∀ t ∈ bound?, t.WellFormed ∧ t.IsReference) ∧ c.Over ((bound?.map Ty.chars).getD []) after ∧
        (bound? = none → after.NoReference) := by
  rw [readClassBoundEq]
  cases bound? with
  | none =>
    change _ ↔ _ ∧ c.Over [] after ∧ _
    rw [overNil]
    constructor
    · intro h
      obtain ⟨none, place⟩ := h
      subst place
      exact ⟨by simp, rfl, fun _ => none⟩
    · intro h
      obtain ⟨_, place, none⟩ := h
      subst place
      exact ⟨none rfl, rfl⟩
  | some t =>
    change readReference nested c = _ ↔ _ ∧ c.Over t.chars after ∧ _
    rw [readReferenceOk inner left]
    simp

theorem readTypeParameterOk {p : TypeParameter} (left : c.rest.length ≤ n) :
    readTypeParameter nested c = .ok (p, after) ↔ p.WellFormed ∧ c.Over p.chars after ∧ p.Ends after := by
  have stops : ∀ x ∈ [':'], x ∈ reserved ∧ x ≠ '/' := by simp [reserved]
  unfold readTypeParameter TypeParameter.Ends
  constructor
  · intro h
    obtain ⟨name, m, h, more⟩ := bindOk.mp h
    obtain ⟨named, taken, _⟩ := (readNameOk stops).mp h
    have length := taken.length
    obtain ⟨_, m1, h, more⟩ := bindOk.mp more
    have colon := expectOk.mp h
    have length1 := colon.length
    obtain ⟨bound?, m2, h, more⟩ := bindOk.mp more
    obtain ⟨good, bound, ended⟩ := (readClassBoundOk inner (by omega)).mp h
    have length2 := bound.length
    obtain ⟨interfaces, m3, h, more⟩ := bindOk.mp more
    obtain ⟨allGood, bounds, stop⟩ := (readAllMarkedOk (readReferenceTakes inner) (by omega)).mp h
    obtain ⟨same, place⟩ := pureOk.mp more
    subst same
    subst place
    refine ⟨⟨named, ?_⟩, ?_, stop, (boundLeftOut bounds).mp ended⟩
    · intro t member
      obtain member | member := List.mem_append.mp member
      · exact good t (Option.mem_toList.mp member)
      · exact allGood t member
    · rw [TypeParameter.chars, overAppend]
      exact ⟨m, taken, overCons.mpr ⟨m1, colon, overAppend.mpr ⟨m2, bound, bounds⟩⟩⟩
  · intro h
    obtain ⟨⟨named, allGood⟩, taken, stop, ended⟩ := h
    rw [TypeParameter.chars, overAppend] at taken
    obtain ⟨m, taken, more⟩ := taken
    have length := taken.length
    obtain ⟨m1, colon, more⟩ := overCons.mp more
    have length1 := colon.length
    obtain ⟨m2, bound, bounds⟩ := overAppend.mp more
    have length2 := bound.length
    have name := (readNameOk stops).mpr ⟨named, taken, ':', List.mem_singleton_self _, colon.head⟩
    have classBound := (readClassBoundOk inner (by omega)).mpr
      ⟨fun t member => allGood t (List.mem_append_left _ (Option.mem_toList.mpr member)), bound,
        (boundLeftOut bounds).mpr ended⟩
    have interfaces := (readAllMarkedOk (readReferenceTakes inner) (by omega)).mpr
      ⟨fun t member => allGood t (List.mem_append_right _ member), bounds, stop⟩
    have mark : Reader.expect ':' m = .ok ((), m1) := expectOk.mpr colon
    rw [bindOf name, bindOf mark, bindOf classBound, bindOf interfaces]
    rfl

theorem readTypeParameterItemsOk {fuel : Nat} {before all : List TypeParameter} (left : c.rest.length ≤ n)
    (enough : c.rest.length ≤ fuel) :
    readTypeParameterItems nested fuel before c = .ok (all, after) ↔
      ∃ params, all = before.reverse ++ params ∧ (∀ p ∈ params, p.WellFormed) ∧
        params.IsChain TypeParameter.Separate ∧ c.Over (params.flatMap TypeParameter.chars ++ ['>']) after := by
  induction fuel generalizing c before with
  | zero =>
    rw [readTypeParameterItems]
    constructor
    · intro h
      exact absurd h (refusedAtEnd enough)
    · intro h
      obtain ⟨params, _, _, _, taken⟩ := h
      exact absurd taken (overAtEnd enough)
  | succ fuel ih =>
    rw [readTypeParameterItems, eatOk]
    constructor
    · intro h
      obtain ⟨m, close, h⟩ | ⟨_, h⟩ := h
      · obtain ⟨same, place⟩ := pureOk.mp h
        subst place
        exact ⟨[], by rw [← same, List.append_nil], by simp, .nil, close⟩
      · obtain ⟨p, m, read, more⟩ := bindOk.mp h
        obtain ⟨wellFormed, written, ends⟩ := (readTypeParameterOk inner left).mp read
        have length := written.length
        have room := p.charsLength
        obtain ⟨params, same, allGood, chain, taken⟩ := (ih (by omega) (by omega)).mp more
        rw [List.reverse_cons, List.append_assoc, List.singleton_append] at same
        refine ⟨p :: params, same, List.forall_mem_cons.mpr ⟨wellFormed, allGood⟩, ?_, ?_⟩
        · exact List.isChain_cons.mpr ⟨(separateEnds allGood taken).mp ends, chain⟩
        · rw [List.flatMap_cons, List.append_assoc, overAppend]
          exact ⟨m, written, taken⟩
    · intro h
      obtain ⟨params, same, allGood, chain, taken⟩ := h
      cases params with
      | nil =>
        rw [List.append_nil] at same
        exact .inl ⟨after, taken, pureOk.mpr ⟨same.symm, rfl⟩⟩
      | cons p params =>
        obtain ⟨wellFormed, allGood⟩ := List.forall_mem_cons.mp allGood
        rw [List.flatMap_cons, List.append_assoc, overAppend] at taken
        obtain ⟨m, written, taken⟩ := taken
        have length := written.length
        have room := p.charsLength
        obtain ⟨separate, chain⟩ := List.isChain_cons.mp chain
        have ends := (separateEnds allGood taken).mpr separate
        have other : c.rest.head? ≠ some '>' := by
          obtain ⟨x, more, front, _, plain⟩ := wellFormed.front
          rw [front] at written
          rw [written.head]
          intro same
          cases same
          exact plain (by simp [reserved])
        have read := (readTypeParameterOk inner left).mpr ⟨wellFormed, written, ends⟩
        have same' : all = (p :: before).reverse ++ params := by
          rw [same, List.reverse_cons, List.append_assoc, List.singleton_append]
        have rest := (ih (by omega) (by omega)).mpr ⟨params, same', allGood, chain, taken⟩
        exact .inr ⟨other, bindOk.mpr ⟨p, m, read, rest⟩⟩

theorem readTypeParametersOk {params : List TypeParameter} (left : c.rest.length ≤ n) :
    readTypeParameters nested c = .ok (params, after) ↔
      (∀ p ∈ params, p.WellFormed) ∧ params.IsChain TypeParameter.Separate ∧ c.Over (declaredChars params) after ∧
        (params = [] → after.rest.head? ≠ some '<') := by
  unfold readTypeParameters declaredChars
  rw [eatOk]
  constructor
  · intro h
    obtain ⟨m, bracket, h⟩ | ⟨other, h⟩ := h
    · have length := bracket.length
      obtain ⟨params', m', h, more⟩ := bindOk.mp h
      obtain ⟨params'', same, allGood, chain, taken⟩ :=
        (readTypeParameterItemsOk inner (by omega) (Nat.le_refl _)).mp h
      rw [List.reverse_nil, List.nil_append] at same
      subst same
      cases params' with
      | nil => cases more
      | cons p params' =>
        obtain ⟨same, place⟩ := pureOk.mp more
        subst same
        subst place
        exact ⟨allGood, chain, overCons.mpr ⟨m, bracket, taken⟩, fun none => absurd none (List.cons_ne_nil _ _)⟩
    · obtain ⟨same, place⟩ := pureOk.mp h
      subst same
      subst place
      exact ⟨by simp, .nil, overNil.mpr rfl, fun _ => other⟩
  · intro h
    obtain ⟨allGood, chain, taken, stop⟩ := h
    cases params with
    | nil =>
      have place := overNil.mp taken
      subst place
      exact .inr ⟨stop rfl, rfl⟩
    | cons p params =>
      obtain ⟨m, bracket, taken⟩ := overCons.mp taken
      have length := bracket.length
      have items : readTypeParameterItems nested m.rest.length [] m = .ok (p :: params, after) :=
        (readTypeParameterItemsOk inner (by omega) (Nat.le_refl _)).mpr ⟨p :: params, rfl, allGood, chain, taken⟩
      exact .inl ⟨m, bracket, bindOk.mpr ⟨p :: params, after, items, rfl⟩⟩

theorem readSignatureOk {s : MethodSignature} (left : c.rest.length ≤ n) :
    readSignature nested c = .ok (s, after) ↔ s.WellFormed ∧ c.Over s.chars after ∧ after.rest = [] := by
  unfold readSignature
  rw [s.charsParts]
  constructor
  · intro h
    obtain ⟨params, m, h, more⟩ := bindOk.mp h
    obtain ⟨allGood, chain, declared, _⟩ := (readTypeParametersOk inner left).mp h
    have length := declared.length
    obtain ⟨parameters, m1, h, more⟩ := bindOk.mp more
    obtain ⟨parametersGood, listed⟩ := (readParameterListOk (readTyTakes inner) (by omega)).mp h
    have length1 := listed.length
    obtain ⟨result?, m2, h, more⟩ := bindOk.mp more
    obtain ⟨resultGood, result⟩ := (readResultOk (readTyTakes inner) (by omega)).mp h
    have length2 := result.length
    obtain ⟨thrown, m3, h, more⟩ := bindOk.mp more
    obtain ⟨thrownGood, throws, _⟩ := (readAllMarkedOk (readThrownTakes inner) (by omega)).mp h
    obtain ⟨_, m4, h, more⟩ := bindOk.mp more
    obtain ⟨ended, place⟩ := readEndOk.mp h
    obtain ⟨same, place'⟩ := pureOk.mp more
    subst same
    subst place'
    subst place
    refine ⟨⟨allGood, chain, parametersGood, resultGood, thrownGood⟩, ?_, ended⟩
    exact overAppend.mpr ⟨m, declared, overAppend.mpr ⟨m1, listed, overAppend.mpr ⟨m2, result, throws⟩⟩⟩
  · intro h
    obtain ⟨wellFormed, taken, ended⟩ := h
    obtain ⟨m, declared, taken⟩ := overAppend.mp taken
    have length := declared.length
    obtain ⟨m1, listed, taken⟩ := overAppend.mp taken
    have length1 := listed.length
    obtain ⟨m2, result, throws⟩ := overAppend.mp taken
    have length2 := result.length
    have undeclared : m.rest.head? ≠ some '<' := by
      rw [listed.head]
      decide
    have unmarked : after.rest.head? ≠ some '^' := by simp [ended]
    have first := (readTypeParametersOk inner left).mpr
      ⟨wellFormed.typeParameters, wellFormed.separate, declared, fun _ => undeclared⟩
    have second := (readParameterListOk (readTyTakes inner) (by omega)).mpr ⟨wellFormed.parameters, listed⟩
    have third := (readResultOk (readTyTakes inner) (by omega)).mpr ⟨wellFormed.result, result⟩
    have fourth := (readAllMarkedOk (readThrownTakes inner) (by omega)).mpr ⟨wellFormed.throwsTypes, throws, unmarked⟩
    have fifth : readEnd .trailingAfterSignature after = .ok ((), after) := readEndOk.mpr ⟨ended, rfl⟩
    rw [bindOf first, bindOf second, bindOf third, bindOf fourth, bindOf fifth]
    rfl

end

theorem parseOk {text : String} {s : MethodSignature} :
    MethodSignature.parse text = .ok s ↔ s.WellFormed ∧ s.print = text := by
  have left : (Cursor.start text).rest.length ≤ text.length := by
    rw [← String.length_toList]
    exact Nat.le_refl _
  exact runPrints fun _ => readSignatureOk (readClassExact _) left

theorem signatureTypesOk {text : String} {types : MethodTypes} :
    signatureTypes text = .ok types ↔ ∃ s : MethodSignature, MethodSignature.parse text = .ok s ∧ s.types = types := by
  unfold signatureTypes
  cases MethodSignature.parse text with
  | error e => exact ⟨nofun, nofun⟩
  | ok s => simp [Except.map]

example : (MethodSignature.mk [⟨"T", none, [.classType 0 (.last "a/B" .nil)]⟩]
    [.classType 1 (.outer "a/C" (.typed .covariant (.variable 0 "T") (.any .nil)) (.last "D" .nil))] none []).print =
    "<T::La/B;>([La/C<+TT;*>.D;)V" := by decide

example : (Ty.classType 1 (.outer "a/C" (.typed .covariant (.variable 0 "T") (.any .nil)) (.last "D" .nil))).source =
    "a.C<? extends T,?>.D[]" := by decide

end SymbolCatalog.Signature
