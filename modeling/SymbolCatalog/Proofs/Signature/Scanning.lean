import SymbolCatalog.Proofs.Signature.Identifiers

/-! The scans of descriptors and signatures answer as their readers do, for every text and every
number of rounds above its length. So none panics and no loop is exhausted. -/
namespace SymbolCatalog.Signature
open Text
variable {α State : Type} {text : String} {bound n : Nat}

/- A loop answers as its reader does if one round does, given that the rounds behind it do. Each round takes
a character, so neither the fuel of the reader, which is the number of characters left, nor the rounds of the
scan are used up. -/
theorem Matches.rounds (read : Nat → State → Reader α) (scan : Nat → State → Scan α)
    (last : ∀ state offset, read 0 state ⟨offset, []⟩ = read 1 state ⟨offset, []⟩)
    (step : ∀ k fuel rounds state, k ≤ n →
      (∀ j < k, ∀ state, Matches text j (j + 1) (read fuel state) (scan rounds state)) →
      Matches text k (k + 1) (read (fuel + 1) state) (scan (rounds + 1) state))
    {rounds : Nat} (many : n < rounds) (state : State) :
    Matches text n (n + 1) (fun c => read c.rest.length state c) (scan rounds state) := by
  have loop : ∀ k fuel, k ≤ n → k ≤ fuel → k < rounds → ∀ state,
      Matches text k (k + 1) (read fuel state) (scan rounds state) := by
    clear many state
    induction rounds with
    | zero =>
      intro k fuel _ _ many
      omega
    | succ rounds ih =>
      intro k fuel near few many state
      cases fuel with
      | zero =>
        -- Nothing is left, and there the reader without fuel does what one more round would do.
        obtain rfl : k = 0 := Nat.le_zero.mp few
        exact .atEndAs (last state) (step 0 0 rounds state near (by simp))
      | succ fuel =>
        refine step k fuel rounds state near ?_
        intro j lt state
        exact ih j fuel (by omega) (by omega) (by omega) state
  intro c s follows left
  have answers := loop _ _ left (Nat.le_refl _) (by omega) state c s follows (Nat.le_refl _)
  exact answers.weaken (by omega)

/-! Types. -/

theorem readDimsEat (depth : UInt8) : readDims depth = (do
    if ← Reader.eat '[' then
      if depth = 255 then Reader.refuse .tooManyDimensions else readDims (depth + 1)
    else pure depth : Reader UInt8) := by
  funext c
  obtain ⟨offset, rest⟩ := c
  cases rest with
  | nil =>
    rw [readDims]
    · rfl
    · simp
  | cons x rest =>
    by_cases bracket : x = '['
    · subst bracket
      rw [readDims]
      split
      · rfl
      · rfl
    · have kept : Reader.eat '[' ⟨offset, x :: rest⟩ = .ok (false, ⟨offset, x :: rest⟩) :=
        if_neg (by simpa using bracket)
      rw [bindOf kept, readDims]
      · rfl
      · simpa using bracket

theorem dimsMatch {rounds : Nat} (depth : UInt8) (many : n < rounds) :
    Matches text n (n + 1) (readDims depth) (Scan.dims rounds depth) := by
  induction rounds generalizing n depth with
  | zero => omega
  | succ rounds ih =>
    rw [readDimsEat, Scan.dims]
    refine .eat '[' (by decide) ?_ (.pure _)
    intro k lt
    exact .ite (fun _ => .refuse _) fun _ => (ih _ (by omega)).weaken (by omega)

theorem tagAscii (p : Primitive) : p.tag.val.toNat < 128 := by cases p <;> decide

theorem ofTagShown (x : Char) : Primitive.ofTag? (shown x) = Primitive.ofTag? x := by
  cases h : Primitive.ofTag? x with
  | some p => rw [Primitive.tag_of_ofTag? h, shownAscii (tagAscii p), Primitive.ofTag?_tag]
  | none =>
    cases h' : Primitive.ofTag? (shown x) with
    | none => rfl
    | some p =>
      have same : x = p.tag := (shownIff (tagAscii p)).mp (Primitive.tag_of_ofTag? h')
      rw [same, Primitive.ofTag?_tag] at h
      cases h

section
variable (enough : (Utf8.encode text).length < bound)
include enough

theorem endedNameMatches {slashes : Bool} (make : String → α) : Matches text n n (do
      let name ← readName [';'] slashes
      Reader.expect ';'
      pure (make name)) (do
      let name ← Scan.identifier bound [';'] slashes
      Scan.expect ';'
      pure (make name)) := by
  have stops : ∀ x ∈ [';'], x ∈ reserved ∧ x ≠ '/' := by simp [reserved]
  refine .bind (nameMatches stops enough) fun name k ltName => ?_
  refine .bind (.expect ';' (by decide)) fun _ j ltEnd => ?_
  exact (Matches.pure _).weaken (by omega)

theorem variableMatches : Matches text n n readVariable (Scan.typeVariable bound) := by
  refine .bind (.expect 'T' (by decide)) fun _ k lt => ?_
  exact (endedNameMatches enough id).weaken (by omega)

theorem fieldMatches (room : n < bound) : Matches text n n readField (Scan.field bound) := by
  refine .bind (dimsMatch 0 room) fun depth k lt => ?_
  refine Matches.bump ?_
  intro next? seen? c s head seen follows left
  -- A letter is seen exactly where it is the next character, so both sides take the same branch.
  split
  · obtain rfl : seen? = none := seen
    exact follows.refused _
  · obtain rfl : seen? = some 'L' := seen
    obtain ⟨moved, shorter⟩ := follows.skip (by decide) head
    refine (endedNameMatches enough fun name => Ty.classType depth (.last name .nil)) _ _ moved ?_
    omega
  · next x notClass =>
    split
    · cases seen
    · exact absurd (seenAs (by decide) seen) (by simpa using notClass)
    · next x' _ =>
      obtain rfl : x' = shown x := Option.some.inj seen
      rw [ofTagShown]
      cases tag : Primitive.ofTag? x with
      | some p =>
        have ascii : x.val.toNat < 128 := Primitive.tag_of_ofTag? tag ▸ tagAscii p
        obtain ⟨moved, shorter⟩ := follows.skip ascii head
        exact .value moved (by omega)
      | none =>
        -- The scanner can stand inside a character here, so nothing follows it any more; it only refuses.
        change Answers text n _ (.error (.fault ⟨s.pos + 1, .unknownFieldTag (shown x)⟩), s.moved 1)
        rw [follows.pos]
        exact .refusal (follows.within head) follows.slices

variable {nested : Reader ClassTy} {nested' : Scan ClassTy} (classes : ∀ k ≤ n, Matches text k k nested nested')
include classes

theorem typeMatches (room : n < bound) : Matches text n n (readTy nested) (Scan.type bound nested') := by
  refine .bind (dimsMatch 0 room) fun depth k lt => ?_
  refine Matches.peek ?_
  intro next? seen? c s head seen follows left
  split
  · obtain rfl : seen? = none := seen
    exact follows.refused _
  · obtain rfl : seen? = some 'L' := seen
    exact ((classes k (by omega)).map c s follows left).weaken (by omega)
  · obtain rfl : seen? = some 'T' := seen
    exact ((variableMatches enough).map c s follows left).weaken (by omega)
  · next x notClass notVariable =>
    split
    · cases seen
    · exact absurd (seenAs (by decide) seen) (by simpa using notClass)
    · exact absurd (seenAs (by decide) seen) (by simpa using notVariable)
    · next x' _ _ =>
      obtain rfl : x' = shown x := Option.some.inj seen
      rw [ofTagShown]
      cases tag : Primitive.ofTag? x with
      | some p =>
        have ascii : x.val.toNat < 128 := Primitive.tag_of_ofTag? tag ▸ tagAscii p
        obtain ⟨moved, shorter⟩ := follows.skip ascii head
        exact .value moved (by omega)
      | none => exact follows.refused _

theorem referenceMatches (room : n < bound) :
    Matches text n n (readReference nested) (Scan.reference bound nested') := by
  refine Matches.peek ?_
  intro next? seen? c s head seen follows left
  split
  · obtain rfl : seen? = some 'L' := seen
    exact (classes n (Nat.le_refl n)).map c s follows left
  · obtain rfl : seen? = some 'T' := seen
    exact (variableMatches enough).map c s follows left
  · obtain rfl : seen? = some '[' := seen
    exact typeMatches enough classes room c s follows left
  · next notClass notVariable notArray =>
    split
    · exact absurd (seenAs (by decide) seen) notClass
    · exact absurd (seenAs (by decide) seen) notVariable
    · exact absurd (seenAs (by decide) seen) notArray
    · exact follows.refused _

theorem thrownMatches : Matches text n n (readThrown nested) (Scan.thrown bound nested') := by
  refine Matches.peek ?_
  intro next? seen? c s head seen follows left
  split
  · obtain rfl : seen? = some 'L' := seen
    exact (classes n (Nat.le_refl n)).map c s follows left
  · obtain rfl : seen? = some 'T' := seen
    exact (variableMatches enough).map c s follows left
  · next notClass notVariable =>
    split
    · exact absurd (seenAs (by decide) seen) notClass
    · exact absurd (seenAs (by decide) seen) notVariable
    · exact follows.refused _

theorem classBoundMatches (room : n < bound) :
    Matches text n (n + 1) (readClassBound nested) (Scan.classBound bound nested') := by
  have given := (referenceMatches enough classes room).map (f := some)
  refine Matches.peek ?_
  intro next? seen? c s head seen follows left
  split
  · obtain rfl : seen? = some 'L' := seen
    exact (given c s follows left).weaken (Nat.le_succ n)
  · obtain rfl : seen? = some 'T' := seen
    exact (given c s follows left).weaken (Nat.le_succ n)
  · obtain rfl : seen? = some '[' := seen
    exact (given c s follows left).weaken (Nat.le_succ n)
  · next notClass notVariable notArray =>
    split
    · exact absurd (seenAs (by decide) seen) notClass
    · exact absurd (seenAs (by decide) seen) notVariable
    · exact absurd (seenAs (by decide) seen) notArray
    · exact .value follows (Nat.lt_succ_of_le left)

end

/-! Lists of types, whatever the sort of types. -/

section
variable {item : Reader Ty} {item' : Scan Ty} (items : ∀ k ≤ n, Matches text k k item item')
include items

theorem parameterListMatches (room : n < bound) :
    Matches text n n (readParameterList item) (Scan.parameterList bound item') := by
  refine .bind (.expect '(' (by decide)) fun _ k lt => ?_
  refine (Matches.rounds (readParameters item) (Scan.parameters item') (fun _ _ => rfl) ?_ (by omega) []).weaken lt
  intro k fuel rounds before near more
  refine .eat ')' (by decide) (fun _ lt => (Matches.pure _).weaken (by omega)) ?_
  refine .atEnd (.refuse _) (.bind (items k (by omega)) fun t j lt => ?_)
  exact (more j lt (t :: before)).weaken (by omega)

theorem markedMatches {mark : Char} (ascii : mark.val.toNat < 128) (room : n < bound) :
    Matches text n (n + 1) (readAllMarked mark item) (Scan.marked mark item' bound []) := by
  refine Matches.rounds (readMarked mark item) (Scan.marked mark item') (fun _ _ => rfl) ?_ room []
  intro k fuel rounds before near more
  refine .eat mark ascii (fun j lt => ?_) (Matches.pure _)
  refine .bind (items j (by omega)) fun t i lt' => ?_
  exact (more i (by omega) (t :: before)).weaken (by omega)

theorem resultMatches : Matches text n n (readResult item) (Scan.result item') := by
  refine .eat 'V' (by decide) (fun k lt => (Matches.pure none).weaken lt) ?_
  exact (items n (Nat.le_refl n)).map

end

theorem finishMatches (cause : Cause) : Matches text n (n + 1) (readEnd cause) (Scan.finish cause) :=
  .atEnd ((Matches.pure ()).weaken (by omega)) (.refuse cause)

/-! Classes. -/

theorem varianceMatches : Matches text n (n + 1) readVariance Scan.variance := by
  refine .eat '+' (by decide) (fun k lt => (Matches.pure _).weaken (by omega)) ?_
  exact .eat '-' (by decide) (fun k lt => (Matches.pure _).weaken (by omega)) (Matches.pure _)

theorem refusedWithName {stops : List Char} {slashes : Bool} {more : String → Reader α} (offset : Nat) :
    Reader.refuse .unterminatedName ⟨offset, []⟩ = (readName stops slashes >>= more) ⟨offset, []⟩ := by
  have none : readName stops slashes ⟨offset, []⟩ = .error ⟨offset, .unterminatedName⟩ := by
    unfold readName
    rw [scanName]
    rfl
  change _ = (readName stops slashes ⟨offset, []⟩ >>= fun p => more p.1 p.2)
  rw [none]
  rfl

section
variable {nested : Reader ClassTy} {nested' : Scan ClassTy} (enough : (Utf8.encode text).length < bound)
variable (classes : ∀ k ≤ n, Matches text k k nested nested')
include enough classes

theorem argsMatches (room : n < bound) : Matches text n n (readArgs nested) (Scan.args bound nested') := by
  refine .bind (.expect '<' (by decide)) fun _ k lt => ?_
  refine .eat '>' (by decide) (fun _ _ => .refuse _) ?_
  refine (Matches.rounds (fun fuel (_ : Unit) => readArgItems nested fuel)
    (fun rounds _ => Scan.argItems bound nested' rounds) (fun _ _ => rfl) ?_ (by omega) ()).weaken lt
  intro k fuel rounds _ near more
  refine .eat '>' (by decide) (fun _ lt => (Matches.pure _).weaken (by omega)) ?_
  refine .eat '*' (by decide) (fun j lt => ((more j lt ()).map).weaken (by omega)) ?_
  refine .bind varianceMatches fun sign j lt => ?_
  have inner : ∀ i ≤ j, Matches text i i nested nested' := fun i le => classes i (by omega)
  refine .bind (referenceMatches enough inner (by omega)) fun type i lt' => ?_
  exact ((more i (by omega) ()).map).weaken (by omega)

theorem segmentsMatch (room : n < bound) : Matches text n (n + 1)
    (fun c => readSegments nested c.rest.length true c) (Scan.segments bound nested' bound true) := by
  have stops : ∀ x ∈ ['<', '.', ';'], x ∈ reserved ∧ x ≠ '/' := by simp [reserved]
  refine Matches.rounds (readSegments nested) (Scan.segments bound nested') ?_ ?_ room true
  · intro slashes offset
    rw [readSegments, readSegments]
    exact refusedWithName offset
  · intro k fuel rounds slashes near more
    refine .bind (nameMatches stops enough) fun name j lt => ?_
    have rest : ∀ args i, i ≤ j → Matches text i (k + 1) (do
        if ← Reader.eat '.' then ClassTy.outer name args <$> readSegments nested fuel false
        else
          Reader.expect ';'
          pure (ClassTy.last name args)) (do
        if ← Scan.eat '.' then ClassTy.outer name args <$> Scan.segments bound nested' rounds false
        else
          Scan.expect ';'
          pure (ClassTy.last name args)) := by
      intro args i le
      refine .eat '.' (by decide) (fun h lt' => ?_) ?_
      · exact ((more h (by omega) false).map).weaken (by omega)
      · refine .bind (.expect ';' (by decide)) fun _ h lt' => ?_
        exact (Matches.pure _).weaken (by omega)
    refine Matches.peek ?_
    intro next? seen? c s head seen follows left
    by_cases bracket : next? = some '<'
    · rw [if_pos bracket, if_pos ((seenIff (by decide) seen).mpr bracket)]
      have inner : ∀ i ≤ j, Matches text i i nested nested' := fun i le => classes i (by omega)
      have given : Matches text j j (readArgs nested) (Scan.args bound nested') :=
        argsMatches enough inner (by omega)
      exact given.bind (fun args i lt' => rest args i (by omega)) c s follows left
    · rw [if_neg bracket, if_neg fun found => bracket ((seenIff (by decide) seen).mp found)]
      exact rest .nil j (Nat.le_refl j) c s follows left

end

theorem classMatches (enough : (Utf8.encode text).length < bound) (room : n < bound) {fuel depth : Nat}
    (few : n ≤ fuel) (many : n < depth) : Matches text n n (readClass fuel) (Scan.classType bound depth) := by
  induction fuel generalizing n depth with
  | zero =>
    cases depth with
    | zero => omega
    | succ depth =>
      rw [readClass, Scan.classType, seqRight_eq_bind]
      exact .bind (.expect 'L' (by decide)) fun _ k lt => by omega
  | succ fuel ih =>
    cases depth with
    | zero => omega
    | succ depth =>
      rw [readClass, Scan.classType]
      -- The letter is taken before a class nests in this one, which pays for the level.
      refine .bind (.expect 'L' (by decide)) fun _ k lt => ?_
      exact (segmentsMatch enough (fun j le => ih (by omega) (by omega) (by omega)) (by omega)).weaken lt

/-! Type parameters. -/

section
variable {nested : Reader ClassTy} {nested' : Scan ClassTy} (enough : (Utf8.encode text).length < bound)
variable (classes : ∀ k ≤ n, Matches text k k nested nested')
include enough classes

theorem typeParameterMatches (room : n < bound) :
    Matches text n n (readTypeParameter nested) (Scan.typeParameter bound nested') := by
  have stops : ∀ x ∈ [':'], x ∈ reserved ∧ x ≠ '/' := by simp [reserved]
  refine .bind (nameMatches stops enough) fun name k ltName => ?_
  refine .bind (.expect ':' (by decide)) fun _ j ltColon => ?_
  refine .bind (classBoundMatches enough (fun i le => classes i (by omega)) (by omega)) fun bound? i ltBound => ?_
  have references : ∀ h ≤ i, Matches text h h (readReference nested) (Scan.reference bound nested') := by
    intro h le
    exact referenceMatches enough (fun g le' => classes g (by omega)) (by omega)
  refine .bind (markedMatches references (by decide) (by omega)) fun bounds h ltBounds => ?_
  exact (Matches.pure _).weaken (by omega)

theorem typeParametersMatch (room : n < bound) :
    Matches text n (n + 1) (readTypeParameters nested) (Scan.typeParameters bound nested') := by
  refine .eat '<' (by decide) (fun k lt => ?_) (Matches.pure _)
  refine .bind (Matches.rounds (readTypeParameterItems nested) (Scan.typeParameterItems bound nested')
    ?_ ?_ (by omega) []) fun params j lt' => ?_
  · intro before offset
    have kept : Reader.eat '>' ⟨offset, []⟩ = .ok (false, ⟨offset, []⟩) := rfl
    rw [readTypeParameterItems, readTypeParameterItems, bindOf kept, bindOf kept]
    simp only [Bool.false_eq_true, if_false]
    unfold readTypeParameter
    rw [bind_assoc]
    exact refusedWithName offset
  · intro k fuel rounds before near more
    refine .eat '>' (by decide) (fun _ lt => (Matches.pure _).weaken (by omega)) ?_
    refine .bind (typeParameterMatches enough (fun j le => classes j (by omega)) (by omega)) fun p j lt => ?_
    exact (more j lt (p :: before)).weaken (by omega)
  · cases params with
    | nil => exact .refuse _
    | cons p params => exact (Matches.pure _).weaken (by omega)

end

/-! Whole texts. -/

section
variable (enough : (Utf8.encode text).length < bound)
include enough

theorem descriptorMatches (room : n < bound) :
    Matches text n (n + 1) (MethodDescriptor.types <$> readDescriptor) (Scan.descriptor bound) := by
  have fields : ∀ k ≤ n, Matches text k k readField (Scan.field bound) := fun k le =>
    fieldMatches enough (by omega)
  unfold readDescriptor
  simp only [map_eq_pure_bind, bind_assoc, pure_bind]
  refine .bind (parameterListMatches fields room) fun parameters k ltList => ?_
  refine .bind (resultMatches fun j le => fields j (by omega)) fun result? j ltResult => ?_
  refine .bind (finishMatches _) fun _ i ltEnd => ?_
  exact (Matches.pure _).weaken (by omega)

theorem signatureMatches (room : n < bound) {fuel : Nat} (few : n ≤ fuel) :
    Matches text n (n + 1) (MethodSignature.types <$> readSignature (readClass fuel)) (Scan.signature bound) := by
  have classes : ∀ k ≤ n, Matches text k k (readClass fuel) (Scan.classType bound bound) := fun k le =>
    classMatches enough (by omega) (by omega) (by omega)
  have types : ∀ k ≤ n, Matches text k k (readTy (readClass fuel)) (Scan.type bound (Scan.classType bound bound)) :=
    fun k le => typeMatches enough (fun j le' => classes j (by omega)) (by omega)
  unfold readSignature
  simp only [map_eq_pure_bind, bind_assoc, pure_bind]
  refine .bind (typeParametersMatch enough classes room) fun typeParameters k ltDeclared => ?_
  refine .bind (parameterListMatches (fun j le => types j (by omega)) (by omega)) fun parameters j ltList => ?_
  refine .bind (resultMatches fun i le => types i (by omega)) fun result? i ltResult => ?_
  have throws : ∀ h ≤ i, Matches text h h (readThrown (readClass fuel))
      (Scan.thrown bound (Scan.classType bound bound)) :=
    fun h le => thrownMatches enough fun g le' => classes g (by omega)
  refine .bind (markedMatches throws (by decide) (by omega)) fun thrown h ltThrown => ?_
  refine .bind (finishMatches _) fun _ g ltEnd => ?_
  exact (Matches.pure _).weaken (by omega)

end

structure Settles (text : String) (answer : Except FormatError MethodTypes)
    (outcome : Except Halt MethodTypes × Scanner) : Prop where
  answered : outcome.1 = answer.mapError fun e => .fault ⟨e.offset, e.cause⟩
  sliced : ∀ slice ∈ outcome.2.slices, Slice text slice
  located : ∀ e, answer = .error e → e.input = text ∧ e.offset ≤ (Utf8.encode text).length

theorem settled {α : Type} {read : Reader α} {types : α → MethodTypes} {scan : Scan MethodTypes}
    (same : Matches text text.toList.length n (types <$> read) scan) :
    Settles text ((read.run text).map types) (scan (.start text)) := by
  have answers := same _ _ (.start text) (Nat.le_refl _)
  rw [map_eq_pure_bind] at answers
  change Answers text n (read (.start text) >>= fun p => .ok (types p.1, p.2)) _ at answers
  unfold Reader.run
  generalize scan (.start text) = outcome at answers ⊢
  generalize read (.start text) = given at answers ⊢
  cases given with
  | ok p =>
    cases answers with
    | value follows left => exact ⟨rfl, follows.slices, by simp [Except.map]⟩
  | error fault =>
    cases answers with
    | refusal inside slices =>
      refine ⟨rfl, slices, ?_⟩
      intro e refused
      cases refused
      exact ⟨rfl, inside⟩

/-- Scans always stop without a panic, for every text and every number of rounds above its length in bytes:
they answer as the readers do, cut names between boundaries, and refuse a text at a position inside it. -/
theorem scansSettle (enough : (Utf8.encode text).length < bound) :
    Settles text (descriptorTypes text) (Scan.descriptor bound (.start text)) ∧
      Settles text (signatureTypes text) (Scan.signature bound (.start text)) := by
  have room : text.toList.length < bound := Nat.lt_of_le_of_lt (Utf8.charsFit text) enough
  constructor
  · exact settled (descriptorMatches enough room)
  · exact settled (signatureMatches enough room (Nat.le_of_eq String.length_toList))

theorem accentedScanned : (Utf8.encode "(Lé;)V").length < 8 ∧
    Settles "(Lé;)V" (descriptorTypes "(Lé;)V") (Scan.descriptor 8 (.start "(Lé;)V")) ∧
      Settles "(Lé;)V" (signatureTypes "(Lé;)V") (Scan.signature 8 (.start "(Lé;)V")) :=
  have enough : (Utf8.encode "(Lé;)V").length < 8 := by decide
  ⟨enough, scansSettle enough⟩

end SymbolCatalog.Signature
