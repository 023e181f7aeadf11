import SymbolCatalog.Proofs.Signature.Exactness

/-! A declared type parameter can have any name, and nothing else depends on it. Only behind a
parameter without bounds some names are not read as names: their letter begins a bound there. -/
namespace SymbolCatalog.Signature
variable {c m after : Cursor} {n : Nat}

def firstBreak (chars : List Char) : Option Char := chars.find? fun x => decide (x ∈ reserved)

theorem Named.plain {name : List Char} (h : Named false name) : ∀ x ∈ name, x ∉ reserved :=
  fun x among structural => nomatch (h.2 x among structural).2

theorem breakBehind {name more : List Char} (plain : ∀ x ∈ name, x ∉ reserved) :
    firstBreak (name ++ more) = firstBreak more := by
  have none : name.find? (fun x => decide (x ∈ reserved)) = none := by simpa using plain
  unfold firstBreak
  rw [List.find?_append, none, Option.none_or]

theorem breakWithin {chars more : List Char} {x : Char} (first : firstBreak chars = some x) :
    firstBreak (chars ++ more) = some x := by
  unfold firstBreak at first ⊢
  rw [List.find?_append, first, Option.some_or]

theorem breakOfName {slashes : Bool} {name : List Char} (named : Named slashes name) {x : Char}
    (structural : x ∈ reserved) (other : x ≠ ':') (more : List Char) :
    ∃ y, firstBreak (name ++ x :: more) = some y ∧ y ≠ ':' := by
  cases found : firstBreak name with
  | none =>
    have plain : ∀ y ∈ name, y ∉ reserved := by simpa [firstBreak] using found
    refine ⟨x, ?_, other⟩
    rw [breakBehind plain]
    exact List.find?_cons_of_pos (decide_eq_true structural)
  | some y =>
    refine ⟨y, breakWithin found, ?_⟩
    have among := List.mem_of_find?_eq_some found
    have isReserved : y ∈ reserved := by simpa using List.find?_some found
    rw [(named.2 y among isReserved).1]
    decide

theorem breakOfSegment {slashes : Bool} {name : List Char} (named : Named slashes name) (args : Args) {x : Char}
    (structural : x ∈ reserved) (other : x ≠ ':') (more : List Char) :
    ∃ y, firstBreak (name ++ (args.listChars ++ x :: more)) = some y ∧ y ≠ ':' := by
  by_cases bare : args = .nil
  · subst bare
    rw [Args.listChars]
    exact breakOfName named structural other more
  · rw [Args.listCharsCons bare]
    exact breakOfName named (by decide) (by decide) _

theorem ClassTy.breaks {slashes : Bool} {type : ClassTy} (wellFormed : type.WellFormed slashes) :
    ∃ x, firstBreak type.chars = some x ∧ x ≠ ':' := by
  cases type with
  | last name args =>
    rw [ClassTy.WellFormed] at wellFormed
    rw [ClassTy.chars, List.append_assoc]
    exact breakOfSegment wellFormed.1 args (by decide) (by decide) _
  | outer name args inner =>
    rw [ClassTy.WellFormed] at wellFormed
    rw [ClassTy.chars, List.append_assoc]
    exact breakOfSegment wellFormed.1 args (by decide) (by decide) _

theorem Ty.breaks {t : Ty} (wellFormed : t.WellFormed) (reference : t.IsReference) :
    ∃ x, firstBreak t.chars = some x ∧ x ≠ ':' := by
  rw [t.charsElement]
  by_cases flat : t.depth = 0
  · rw [flat, bracketCharsZero, List.nil_append]
    cases t with
    | primitive depth p => exact absurd flat reference
    | «variable» depth name =>
      rw [Ty.WellFormed] at wellFormed
      refine ⟨';', ?_, by decide⟩
      have letter : ∀ x ∈ ['T'], x ∉ reserved := by simp [reserved]
      change firstBreak (['T'] ++ (name.toList ++ [';'])) = some ';'
      rw [breakBehind letter, breakBehind wellFormed.plain]
      rfl
    | classType depth type =>
      rw [Ty.WellFormed] at wellFormed
      have letter : ∀ x ∈ ['L'], x ∉ reserved := by simp [reserved]
      change ∃ x, firstBreak (['L'] ++ type.chars) = some x ∧ x ≠ ':'
      rw [breakBehind letter]
      exact type.breaks wellFormed
  · obtain ⟨more, brackets⟩ := bracketCharsCons flat
    rw [brackets]
    exact ⟨'[', rfl, by decide⟩

section
variable {nested : Reader ClassTy} (inner : Exact nested n)
include inner

theorem nameNoReference {name : List Char} (named : Named false name) (taken : c.Over (name ++ [':']) m)
    (left : c.rest.length ≤ n) {t : Ty} : readReference nested c ≠ .ok (t, after) := by
  intro read
  obtain ⟨⟨wellFormed, reference⟩, written⟩ := (readReferenceOk inner left).mp read
  obtain ⟨x, first, other⟩ := t.breaks wellFormed reference
  have colon : firstBreak (name ++ [':']) = some ':' := breakBehind named.plain
  have here : firstBreak c.rest = some ':' := by
    rw [taken.1]
    exact breakWithin colon
  rw [written.1, breakWithin first] at here
  exact other (Option.some.inj here)

theorem readBareRefused {p q p' : TypeParameter} (wellFormed : p.WellFormed) (next : q.WellFormed)
    (confused : ¬ p.Separate q) (written : c.Over p.chars m) (taken : m.Over (q.name.toList ++ [':']) after)
    (left : c.rest.length ≤ n) {place : Cursor} : readTypeParameter nested c ≠ .ok (p', place) := by
  have stops : ∀ x ∈ [':'], x ∈ reserved ∧ x ≠ '/' := by simp [reserved]
  unfold TypeParameter.Separate TypeParameter.bounds at confused
  simp only [List.append_eq_nil_iff, Classical.not_imp] at confused
  obtain ⟨⟨noClass, noInterface⟩, letters⟩ := confused
  rw [Option.toList_eq_nil_iff] at noClass
  rw [TypeParameter.chars, noClass, noInterface, overAppend] at written
  obtain ⟨m', name, colon⟩ := written
  have length := name.length
  have length' := colon.length
  have first := (readNameOk stops).mpr ⟨wellFormed.name, name, ':', List.mem_singleton_self _, colon.head⟩
  have second : Reader.expect ':' m' = .ok ((), m) := expectOk.mpr colon
  intro read
  unfold readTypeParameter at read
  rw [bindOf first, bindOf second] at read
  obtain ⟨bound?, place', bound, _⟩ := bindOk.mp read
  rw [readClassBoundEq] at bound
  cases bound? with
  | some t => exact nameNoReference inner next.name taken (by omega) bound
  | none =>
    -- the letter would begin a bound
    obtain ⟨x, more, _, front, _⟩ := next.front
    have head : m.rest.head? = some x := by
      rw [taken.1]
      simp [List.head?_append, front]
    have letter : x = 'L' ∨ x = 'T' := by
      by_contra neither
      obtain ⟨notClass, notVariable⟩ := not_or.mp neither
      exact letters ⟨by simp [front, notClass], by simp [front, notVariable]⟩
    exact bound.1 x head (.inr letter)

theorem readItemsSeparate {params all before : List TypeParameter} {fuel : Nat} {place : Cursor}
    (allGood : ∀ p ∈ params, p.WellFormed) (taken : c.Over (params.flatMap TypeParameter.chars ++ ['>']) after)
    (left : c.rest.length ≤ n) (read : readTypeParameterItems nested fuel before c = .ok (all, place)) :
    params.IsChain TypeParameter.Separate := by
  induction params generalizing c fuel before with
  | nil => exact .nil
  | cons p params ih =>
    obtain ⟨wellFormed, rest⟩ := List.forall_mem_cons.mp allGood
    rw [List.flatMap_cons, List.append_assoc, overAppend] at taken
    obtain ⟨m, written, taken⟩ := taken
    have length := written.length
    have open' : c.rest.head? ≠ some '>' := by
      obtain ⟨x, more, front, _, plain⟩ := wellFormed.front
      rw [front] at written
      rw [written.head]
      intro same
      cases same
      exact plain (by decide)
    cases fuel with
    | zero =>
      rw [readTypeParameterItems, eatOk] at read
      obtain ⟨m', close, _⟩ | ⟨_, refused⟩ := read
      · exact absurd close.head open'
      · cases refused
    | succ fuel =>
      rw [readTypeParameterItems, eatOk] at read
      obtain ⟨m', close, _⟩ | ⟨_, more⟩ := read
      · exact absurd close.head open'
      · obtain ⟨p', m', first, more⟩ := bindOk.mp more
        by_cases separate : ∀ q ∈ params.head?, p.Separate q
        · have ends := (separateEnds rest taken).mpr separate
          have own := (readTypeParameterOk inner left).mpr ⟨wellFormed, written, ends⟩
          cases own.symm.trans first
          exact List.isChain_cons.mpr ⟨separate, ih rest taken (by omega) more⟩
        · cases params with
          | nil => exact absurd (by simp) separate
          | cons q params =>
            have confused : ¬ p.Separate q := by simpa using separate
            rw [List.flatMap_cons, TypeParameter.chars, List.append_assoc, List.append_assoc, List.cons_append,
              ← List.singleton_append, ← List.append_assoc, overAppend] at taken
            obtain ⟨m'', name, _⟩ := taken
            exact absurd first
              (readBareRefused inner wellFormed (rest q List.mem_cons_self) confused written name left)

end

theorem acceptedSeparate {s : MethodSignature} (allGood : ∀ p ∈ s.typeParameters, p.WellFormed) {types : MethodTypes}
    (accepted : signatureTypes s.print = .ok types) : s.typeParameters.IsChain TypeParameter.Separate := by
  have left : (Cursor.start s.print).rest.length ≤ s.print.length := by
    rw [← String.length_toList]
    exact Nat.le_refl _
  have whole : (Cursor.start s.print).Over s.chars ⟨Text.Utf8.size s.chars, []⟩ := by
    refine ⟨?_, (Nat.zero_add _).symm⟩
    exact String.toList_ofList.trans (List.append_nil _).symm
  have inner := readClassExact s.print.length
  obtain ⟨s', parsed, _⟩ := signatureTypesOk.mp accepted
  obtain ⟨place, read⟩ := runOk.mp parsed
  unfold readSignature at read
  obtain ⟨params, m, declared, _⟩ := bindOk.mp read
  rw [s.charsParts, overAppend] at whole
  obtain ⟨m', taken, _⟩ := whole
  unfold declaredChars at taken
  cases given : s.typeParameters with
  | nil => exact .nil
  | cons p more =>
    rw [given] at taken allGood
    obtain ⟨m'', bracket, taken⟩ := overCons.mp taken
    have length := bracket.length
    unfold readTypeParameters at declared
    rw [eatOk] at declared
    obtain ⟨m3, bracket', items⟩ | ⟨other, _⟩ := declared
    · have place' : m3 = m'' := (overSkip.mp bracket').2.symm.trans (overSkip.mp bracket).2
      subst place'
      obtain ⟨all, _, items, _⟩ := bindOk.mp items
      exact readItemsSeparate inner allGood taken (by omega) items
    · exact absurd bracket.head other

def MethodTypes.renamed (types : MethodTypes) (i : Nat) (name : String) : MethodTypes :=
  { types with typeParameters := types.typeParameters.modify i fun p => { p with name } }

/- The parameter before has no bounds, and the name begins with a letter that begins a bound. -/
def MethodTypes.Confuses (types : MethodTypes) (i : Nat) (name : String) : Prop :=
  ∃ p ∈ (types.typeParameters.take i).getLast?, p.bounds = [] ∧
    (name.toList.head? = some 'L' ∨ name.toList.head? = some 'T')

namespace MethodSignature
variable {s : MethodSignature} {front back : List TypeParameter} {p : TypeParameter} {name : String}

def renamed (s : MethodSignature) (i : Nat) (name : String) : MethodSignature :=
  { s with typeParameters := s.typeParameters.modify i fun p => { p with name } }

theorem renamedTypes (s : MethodSignature) (i : Nat) (name : String) :
    (s.renamed i name).types = s.types.renamed i name := by
  unfold types renamed MethodTypes.renamed
  rw [MethodTypes.mk.injEq]
  refine ⟨rfl, rfl, rfl, List.ext_getElem? fun k => ?_⟩
  rw [List.getElem?_map, List.getElem?_modify, List.getElem?_modify, List.getElem?_map]
  cases s.typeParameters[k]? with
  | none => rfl
  | some p => by_cases here : i = k <;> simp [here, TypeParameter.bounds]

section
variable (parts : s.typeParameters = front ++ p :: back)
include parts

theorem renamedParts (name : String) :
    (s.renamed front.length name).typeParameters = front ++ { p with name } :: back := by
  unfold renamed
  dsimp only
  rw [parts]
  clear parts
  induction front with
  | nil => rfl
  | cons first front ih => exact congrArg _ ih

theorem renamedSelf : s.renamed front.length p.name = s := by
  obtain ⟨params, parameters, result?, throwsTypes⟩ := s
  have same : (renamed _ front.length p.name).typeParameters = _ := renamedParts parts p.name
  exact congrArg (mk · parameters result? throwsTypes) (same.trans parts.symm)

theorem renamedPrint : ∃ before after : String, ∀ name,
    (s.renamed front.length name).print = before ++ name ++ after := by
  let bounds := (p.classBound?.map Ty.chars).getD [] ++ p.interfaceBounds.flatMap fun bound => ':' :: bound.chars
  let rest := '(' :: (s.parameters.flatMap Ty.chars ++ ')' :: resultChars s.result?) ++
    s.throwsTypes.flatMap fun thrown => '^' :: thrown.chars
  refine ⟨.ofList ('<' :: front.flatMap TypeParameter.chars),
    .ofList (':' :: bounds ++ back.flatMap TypeParameter.chars ++ '>' :: rest), fun name => ?_⟩
  have chars : (s.renamed front.length name).chars = '<' :: front.flatMap TypeParameter.chars ++ name.toList ++
      (':' :: bounds ++ back.flatMap TypeParameter.chars ++ '>' :: rest) := by
    unfold MethodSignature.chars
    rw [renamedParts parts]
    simp [TypeParameter.chars, renamed, bounds, rest]
  unfold print
  rw [chars, String.ofList_append, String.ofList_append, String.ofList_toList]

theorem renamedGood (allGood : ∀ p ∈ s.typeParameters, p.WellFormed) (named : Named false name.toList) :
    ∀ p ∈ (s.renamed front.length name).typeParameters, p.WellFormed := by
  rw [parts, List.forall_mem_append, List.forall_mem_cons] at allGood
  obtain ⟨before, own, behind⟩ := allGood
  rw [renamedParts parts, List.forall_mem_append, List.forall_mem_cons]
  exact ⟨before, ⟨named, own.bounds⟩, behind⟩

theorem renamedSeparate (separate : s.typeParameters.IsChain TypeParameter.Separate) :
    (s.renamed front.length name).typeParameters.IsChain TypeParameter.Separate ↔
      ¬ s.types.Confuses front.length name := by
  rw [parts, List.isChain_append, List.isChain_cons] at separate
  obtain ⟨before, behind, _⟩ := separate
  have last : (s.types.typeParameters.take front.length).getLast? =
      front.getLast?.map fun p => ⟨p.name, p.bounds.map Ty.source⟩ := by
    unfold types
    rw [parts]
    simp
  rw [renamedParts parts, List.isChain_append, List.isChain_cons]
  unfold MethodTypes.Confuses
  rw [last]
  simp only [List.head?_cons, Option.mem_def, Option.some.injEq, forall_eq']
  constructor
  · intro h confused
    obtain ⟨_, _, join⟩ := h
    obtain ⟨q, among, bare, letter⟩ := confused
    obtain ⟨own, there, same⟩ := Option.map_eq_some_iff.mp among
    subst same
    obtain ⟨first, second⟩ := join own there (List.map_eq_nil_iff.mp bare)
    exact letter.elim first second
  · intro clear
    refine ⟨before, behind, fun q there bare => ?_⟩
    have none := fun letter => clear ⟨_, Option.map_eq_some_iff.mpr ⟨q, there, rfl⟩, List.map_eq_nil_iff.mpr bare, letter⟩
    exact ⟨fun first => none (.inl first), fun second => none (.inr second)⟩

end
end MethodSignature

/-- A declared name that is changed in a text is changed in what is read of it, and nothing else is; but
where the new name would be taken for a bound, the text is refused. -/
theorem renamedRead {text : String} {types : MethodTypes} (accepted : signatureTypes text = .ok types) {i : Nat}
    {p : TypeParameterText} (declared : types.typeParameters[i]? = some p) :
    ∃ before after : String, text = before ++ p.name ++ after ∧ ∀ name : String, Named false name.toList →
      (¬ types.Confuses i name → signatureTypes (before ++ name ++ after) = .ok (types.renamed i name)) ∧
      (types.Confuses i name → ∃ e, signatureTypes (before ++ name ++ after) = .error e) := by
  obtain ⟨s, parsed, same⟩ := signatureTypesOk.mp accepted
  obtain ⟨wellFormed, print⟩ := parseOk.mp parsed
  subst same
  unfold MethodSignature.types at declared
  rw [List.getElem?_map, Option.map_eq_some_iff] at declared
  obtain ⟨q, found, same⟩ := declared
  subst same
  obtain ⟨inside, here⟩ := List.getElem?_eq_some_iff.mp found
  have parts : s.typeParameters = s.typeParameters.take i ++ q :: s.typeParameters.drop (i + 1) := by
    rw [← here, List.getElem_cons_drop, List.take_append_drop]
  have length : (s.typeParameters.take i).length = i := List.length_take_of_le (Nat.le_of_lt inside)
  rw [← length]
  generalize s.typeParameters.take i = front at parts ⊢
  obtain ⟨before, after, around⟩ := MethodSignature.renamedPrint parts
  refine ⟨before, after, ?_, fun name named => ?_⟩
  · rw [← print, ← around, MethodSignature.renamedSelf parts]
  · have good := MethodSignature.renamedGood parts wellFormed.typeParameters named
    have separate : (s.renamed front.length name).typeParameters.IsChain TypeParameter.Separate ↔
        ¬ s.types.Confuses front.length name := MethodSignature.renamedSeparate parts wellFormed.separate
    rw [← around, ← MethodSignature.renamedTypes]
    constructor
    · intro clear
      have grammar : (s.renamed front.length name).WellFormed :=
        ⟨good, separate.mpr clear, wellFormed.parameters, wellFormed.result, wellFormed.throwsTypes⟩
      exact signatureTypesOk.mpr ⟨_, parseOk.mpr ⟨grammar, rfl⟩, rfl⟩
    · intro confused
      cases read : signatureTypes (s.renamed front.length name).print with
      | error e => exact ⟨e, rfl⟩
      | ok types => exact absurd confused (separate.mp (acceptedSeparate good read))

theorem neighbourRenamed :
    let types : MethodTypes := ⟨.void, [], [], [⟨"A", []⟩, ⟨"B", ["a.C"]⟩]⟩
    signatureTypes "<A:B:La/C;>()V" = .ok types ∧ ¬ types.Confuses 1 "U" ∧ types.Confuses 1 "L" ∧
      ∃ before after : String, "<A:B:La/C;>()V" = before ++ "B" ++ after ∧
        ∀ name : String, Named false name.toList →
          (¬ types.Confuses 1 name → signatureTypes (before ++ name ++ after) = .ok (types.renamed 1 name)) ∧
          (types.Confuses 1 name → ∃ e, signatureTypes (before ++ name ++ after) = .error e) := by
  intro types
  have read : signatureTypes "<A:B:La/C;>()V" = .ok types := by decide +kernel
  have declared : types.typeParameters[1]? = some ⟨"B", ["a.C"]⟩ := rfl
  refine ⟨read, ?_, ⟨⟨"A", []⟩, rfl, rfl, .inl rfl⟩, renamedRead read declared⟩
  rintro ⟨_, _, _, letter⟩
  exact absurd letter (by decide)

theorem letterNameRefused :
    signatureTypes "<A:B:La/C;>()V" = .ok ⟨.void, [], [], [⟨"A", []⟩, ⟨"B", ["a.C"]⟩]⟩ ∧ Named false "L".toList ∧
      signatureTypes "<A:L:La/C;>()V" = .error ⟨"<A:L:La/C;>()V", 4, .reservedInName ':'⟩ := by
  refine ⟨by decide +kernel, ?_, by decide +kernel⟩
  simp [Named, reserved]

end SymbolCatalog.Signature
