import SymbolCatalog.Proofs.Signature.Types

/-! What the readers of classes and their arguments take. A class is read where its nested classes
are, and its letter leaves less for them, so by induction classes are read exactly at any depth. -/
namespace SymbolCatalog.Signature
variable {c after : Cursor}

theorem nameStops : ∀ x ∈ ['<', '.', ';'], x ∈ reserved ∧ x ≠ '/' := by simp [reserved]

section
variable {nested : Reader ClassTy} {n : Nat} (inner : Exact nested n)
include inner

theorem readArgItemsOk {fuel : Nat} {args : Args} (left : c.rest.length ≤ n) (enough : c.rest.length ≤ fuel) :
    readArgItems nested fuel c = .ok (args, after) ↔ args.WellFormed ∧ c.Over (args.itemChars ++ ['>']) after := by
  induction fuel generalizing c args with
  | zero =>
    rw [readArgItems]
    constructor
    · intro h
      exact absurd h (refusedAtEnd enough)
    · intro h
      exact absurd h.2 (overAtEnd enough)
  | succ fuel ih =>
    rw [readArgItems, eatOk, eatOk]
    constructor
    · intro h
      obtain ⟨m, close, h⟩ | ⟨_, ⟨m, wildcard, h⟩ | ⟨_, h⟩⟩ := h
      · obtain ⟨same, place⟩ := pureOk.mp h
        subst same
        subst place
        rw [Args.WellFormed, Args.itemChars]
        exact ⟨trivial, close⟩
      · have length := wildcard.length
        rw [List.length_singleton] at length
        obtain ⟨rest, h, same⟩ := mapOk.mp h
        obtain ⟨wellFormed, taken⟩ := (ih (by omega) (by omega)).mp h
        subst same
        rw [Args.WellFormed, Args.itemChars, List.cons_append, overCons]
        exact ⟨wellFormed, m, wildcard, taken⟩
      · obtain ⟨variance, m, h, more⟩ := bindOk.mp h
        obtain ⟨sign, _⟩ := readVarianceOk.mp h
        have length := sign.length
        obtain ⟨type, m', h, more⟩ := bindOk.mp more
        obtain ⟨good, written⟩ := (readReferenceOk inner (by omega)).mp h
        have length' := written.length
        obtain ⟨x, chars, front, _⟩ := type.charsFront
        rw [front, List.length_cons] at length'
        obtain ⟨rest, h, same⟩ := mapOk.mp more
        obtain ⟨wellFormed, taken⟩ := (ih (by omega) (by omega)).mp h
        subst same
        rw [Args.WellFormed, Args.itemChars, List.append_assoc, overAppend]
        simp only [overAppend]
        exact ⟨⟨good, wellFormed⟩, m', ⟨m, sign, written⟩, overAppend.mp taken⟩
    · intro h
      obtain ⟨wellFormed, taken⟩ := h
      cases args with
      | nil =>
        rw [Args.itemChars, List.nil_append] at taken
        exact .inl ⟨after, taken, rfl⟩
      | any rest =>
        rw [Args.WellFormed] at wellFormed
        rw [Args.itemChars, List.cons_append, overCons] at taken
        obtain ⟨m, wildcard, taken⟩ := taken
        have length := wildcard.length
        rw [List.length_singleton] at length
        have other : c.rest.head? ≠ some '>' := by
          rw [wildcard.head]
          decide
        have read := (ih (by omega) (by omega)).mpr ⟨wellFormed, taken⟩
        exact .inr ⟨other, .inl ⟨m, wildcard, mapOk.mpr ⟨rest, read, rfl⟩⟩⟩
      | typed variance type rest =>
        rw [Args.WellFormed] at wellFormed
        obtain ⟨good, wellFormed⟩ := wellFormed
        have start : c.rest.head? ≠ some '>' ∧ c.rest.head? ≠ some '*' ∧
            (variance = .exact → c.rest.head? ≠ some '+' ∧ c.rest.head? ≠ some '-') := by
          obtain ⟨x, chars, front, other⟩ := Args.typedFront good.2
          rw [front] at taken
          simpa only [taken.head, ne_eq, Option.some.injEq] using other
        rw [Args.itemChars, List.append_assoc, overAppend] at taken
        obtain ⟨m', taken, more⟩ := taken
        obtain ⟨m, sign, written⟩ := overAppend.mp taken
        have length := sign.length
        have length' := written.length
        obtain ⟨x, chars, front, _⟩ := type.charsFront
        rw [front, List.length_cons] at length'
        have signRead := readVarianceOk.mpr ⟨sign, start.2.2⟩
        have typeRead := (readReferenceOk inner (by omega)).mpr ⟨good, written⟩
        have restRead := (ih (by omega) (by omega)).mpr ⟨wellFormed, more⟩
        refine .inr ⟨start.1, .inr ⟨start.2.1, ?_⟩⟩
        rw [bindOf signRead, bindOf typeRead]
        exact mapOk.mpr ⟨rest, restRead, rfl⟩

theorem readArgsOk {args : Args} (left : c.rest.length ≤ n) :
    readArgs nested c = .ok (args, after) ↔ args.WellFormed ∧ args ≠ .nil ∧ c.Over args.listChars after := by
  unfold readArgs
  rw [bindOk]
  simp only [expectOk, eatOk, refuseOk]
  constructor
  · intro h
    obtain ⟨_, m, bracket, ⟨_, _, h⟩ | ⟨other, h⟩⟩ := h
    · exact h.elim
    · have length := bracket.length
      rw [List.length_singleton] at length
      obtain ⟨wellFormed, taken⟩ := (readArgItemsOk inner (by omega) (Nat.le_refl _)).mp h
      have given : args ≠ .nil := by
        intro none
        rw [none, Args.itemChars] at taken
        exact other taken.head
      rw [Args.listCharsCons given, overCons]
      exact ⟨wellFormed, given, m, bracket, taken⟩
  · intro h
    obtain ⟨wellFormed, given, taken⟩ := h
    rw [Args.listCharsCons given, overCons] at taken
    obtain ⟨m, bracket, taken⟩ := taken
    have length := bracket.length
    rw [List.length_singleton] at length
    have other : m.rest.head? ≠ some '>' := by
      obtain ⟨x, chars, front, other⟩ := Args.itemFront wellFormed given
      rw [front] at taken
      simpa only [taken.head, ne_eq, Option.some.injEq] using other
    exact ⟨(), m, bracket, .inr ⟨other, (readArgItemsOk inner (by omega) (Nat.le_refl _)).mpr ⟨wellFormed, taken⟩⟩⟩

theorem readGivenArgsOk {α : Type} {goOn : Args → Reader α} {a : α} (left : c.rest.length ≤ n) :
    (if c.rest.head? = some '<' then readArgs nested >>= goOn else pure .nil >>= goOn) c = .ok (a, after) ↔
      ∃ args m, (args.WellFormed ∧ c.Over args.listChars m ∧ (args = .nil → m.rest.head? ≠ some '<')) ∧
        goOn args m = .ok (a, after) := by
  by_cases bracket : c.rest.head? = some '<'
  · rw [if_pos bracket, bindOk]
    simp only [readArgsOk inner left]
    constructor
    · intro h
      obtain ⟨args, m, ⟨wellFormed, given, taken⟩, more⟩ := h
      exact ⟨args, m, ⟨wellFormed, taken, fun none => absurd none given⟩, more⟩
    · intro h
      obtain ⟨args, m, ⟨wellFormed, taken, other⟩, more⟩ := h
      have given : args ≠ .nil := by
        intro none
        rw [none, Args.listChars] at taken
        rw [overNil.mp taken] at other
        exact other none bracket
      exact ⟨args, m, ⟨wellFormed, given, taken⟩, more⟩
  · rw [if_neg bracket, bindOk]
    simp only [pureOk]
    constructor
    · intro h
      obtain ⟨args, m, ⟨same, place⟩, more⟩ := h
      subst same
      subst place
      refine ⟨.nil, m, ⟨?_, ?_, fun _ => bracket⟩, more⟩
      · rw [Args.WellFormed]
        trivial
      · rw [Args.listChars]
        exact overNil.mpr rfl
    · intro h
      obtain ⟨args, m, ⟨wellFormed, taken, other⟩, more⟩ := h
      cases args with
      | nil =>
        rw [Args.listChars] at taken
        exact ⟨.nil, m, ⟨rfl, overNil.mp taken⟩, more⟩
      | any rest =>
        rw [Args.listChars] at taken
        exact absurd taken.head bracket
      | typed variance type rest =>
        rw [Args.listChars] at taken
        exact absurd taken.head bracket

theorem readSegmentsNamed {fuel : Nat} {slashes : Bool} {name : String} {args : Args} {type : ClassTy} {m : Cursor}
    {x : Char} (left : c.rest.length ≤ n) (named : Named slashes name.toList) (wellFormed : args.WellFormed)
    (taken : c.Over (name.toList ++ args.listChars) m) (stop : m.rest.head? = some x) (ends : x = '.' ∨ x = ';')
    (h : (Reader.eat '.' >>= fun found => if found = true then .outer name args <$> readSegments nested fuel false
      else Reader.expect ';' >>= fun _ => pure (.last name args)) m = .ok (type, after)) :
    readSegments nested (fuel + 1) slashes c = .ok (type, after) := by
  obtain ⟨middle, first, listed⟩ := overAppend.mp taken
  have length := first.length
  have stopped : ∃ y ∈ ['<', '.', ';'], middle.rest.head? = some y := by
    by_cases none : args = .nil
    · rw [none, Args.listChars] at listed
      rw [← overNil.mp listed]
      obtain rfl | rfl := ends
      · exact ⟨'.', by simp, stop⟩
      · exact ⟨';', by simp, stop⟩
    · rw [Args.listCharsCons none] at listed
      exact ⟨'<', by simp, listed.head⟩
  have other : m.rest.head? ≠ some '<' := by
    rw [stop]
    obtain rfl | rfl := ends <;> decide
  rw [readSegments]
  refine bindOk.mpr ⟨name, middle, (readNameOk nameStops).mpr ⟨named, first, stopped⟩, ?_⟩
  rw [peekOk]
  exact (readGivenArgsOk inner (by omega)).mpr ⟨args, m, ⟨wellFormed, listed, fun _ => other⟩, h⟩

theorem readSegmentsOk {fuel : Nat} {slashes : Bool} {type : ClassTy} (left : c.rest.length ≤ n)
    (enough : c.rest.length ≤ fuel) :
    readSegments nested fuel slashes c = .ok (type, after) ↔ type.WellFormed slashes ∧ c.Over type.chars after := by
  induction fuel generalizing c slashes type with
  | zero =>
    rw [readSegments, refuseOk]
    constructor
    · intro h
      exact h.elim
    · intro h
      have length := h.2.length
      have room := type.charsLength
      omega
  | succ fuel ih =>
    rw [readSegments]
    constructor
    · intro h
      obtain ⟨name, m, h, more⟩ := bindOk.mp h
      obtain ⟨named, taken, _⟩ := (readNameOk nameStops).mp h
      have length := taken.length
      rw [peekOk] at more
      obtain ⟨args, m', ⟨wellFormed, listed, _⟩, more⟩ := (readGivenArgsOk inner (by omega)).mp more
      have length' := listed.length
      obtain ⟨m'', dot, more⟩ | ⟨_, more⟩ := eatOk.mp more
      · have length'' := dot.length
        rw [List.length_singleton] at length''
        obtain ⟨type', h, same⟩ := mapOk.mp more
        obtain ⟨wellFormed', taken'⟩ := (ih (by omega) (by omega)).mp h
        subst same
        rw [ClassTy.WellFormed, ClassTy.chars, overAppend]
        exact ⟨⟨named, wellFormed, wellFormed'⟩, m', overAppend.mpr ⟨m, taken, listed⟩, overCons.mpr ⟨m'', dot, taken'⟩⟩
      · obtain ⟨_, m'', h, more⟩ := bindOk.mp more
        obtain ⟨same, place⟩ := pureOk.mp more
        subst same
        subst place
        rw [ClassTy.WellFormed, ClassTy.chars, overAppend]
        exact ⟨⟨named, wellFormed⟩, m', overAppend.mpr ⟨m, taken, listed⟩, expectOk.mp h⟩
    · intro h
      obtain ⟨wellFormed, taken⟩ := h
      cases type with
      | last name args =>
        rw [ClassTy.WellFormed] at wellFormed
        rw [ClassTy.chars, overAppend] at taken
        obtain ⟨named, wellFormed⟩ := wellFormed
        obtain ⟨m, taken, stop⟩ := taken
        have other : m.rest.head? ≠ some '.' := by
          rw [stop.head]
          decide
        have ends : (Reader.expect ';' >>= fun _ => pure (ClassTy.last name args)) m = .ok (.last name args, after) :=
          bindOk.mpr ⟨(), after, expectOk.mpr stop, rfl⟩
        exact readSegmentsNamed inner left named wellFormed taken stop.head (.inr rfl) (eatOk.mpr (.inr ⟨other, ends⟩))
      | outer name args type' =>
        rw [ClassTy.WellFormed] at wellFormed
        rw [ClassTy.chars, overAppend] at taken
        obtain ⟨named, wellFormed, wellFormed'⟩ := wellFormed
        obtain ⟨m, taken, more⟩ := taken
        have length := taken.length
        obtain ⟨m', dot, taken'⟩ := overCons.mp more
        have length' := dot.length
        rw [List.length_singleton] at length'
        have rest := (ih (by omega) (by omega)).mpr ⟨wellFormed', taken'⟩
        refine readSegmentsNamed inner left named wellFormed taken dot.head (.inl rfl) (eatOk.mpr (.inl ⟨m', dot, ?_⟩))
        exact mapOk.mpr ⟨type', rest, rfl⟩

end

/-- Classes are read exactly, as deep as the characters that are left can nest them. -/
theorem readClassExact (fuel : Nat) : Exact (readClass fuel) fuel := by
  induction fuel with
  | zero =>
    intro c type after left
    have empty : c.rest = [] := List.length_eq_zero_iff.mp (Nat.le_zero.mp left)
    rw [readClass, seqRight_eq_bind, bindOk]
    simp only [refuseOk, and_false, exists_false, false_iff]
    intro h
    have head := h.2.head
    rw [empty] at head
    cases head
  | succ fuel ih =>
    intro c type after left
    rw [readClass, bindOk, overCons]
    simp only [expectOk]
    constructor
    · intro h
      obtain ⟨_, m, letter, h⟩ := h
      have length := letter.length
      rw [List.length_singleton] at length
      obtain ⟨wellFormed, taken⟩ := (readSegmentsOk ih (by omega) (Nat.le_refl _)).mp h
      exact ⟨wellFormed, m, letter, taken⟩
    · intro h
      obtain ⟨wellFormed, m, letter, taken⟩ := h
      have length := letter.length
      rw [List.length_singleton] at length
      exact ⟨(), m, letter, (readSegmentsOk ih (by omega) (Nat.le_refl _)).mpr ⟨wellFormed, taken⟩⟩

end SymbolCatalog.Signature
