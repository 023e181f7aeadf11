import SymbolCatalog.Signature.Descriptor

/-! What readers take, told by one equivalence each: the value and the place behind it, by the
characters between the places and by what follows. Both directions of a grammar come from such
equivalences. -/
namespace SymbolCatalog.Signature
variable {α β : Type}

def Cursor.Over (c : Cursor) (chars : List Char) (after : Cursor) : Prop :=
  c.rest = chars ++ after.rest ∧ after.offset = c.offset + Text.Utf8.size chars

theorem overNil {c after : Cursor} : c.Over [] after ↔ after = c := by
  unfold Cursor.Over
  cases c
  cases after
  simp [Text.Utf8.size, eq_comm, and_comm]

theorem overAppend {c after : Cursor} {chars more : List Char} :
    c.Over (chars ++ more) after ↔ ∃ m, c.Over chars m ∧ m.Over more after := by
  unfold Cursor.Over
  constructor
  · intro h
    obtain ⟨rest, offset⟩ := h
    refine ⟨⟨c.offset + Text.Utf8.size chars, more ++ after.rest⟩, ⟨?_, rfl⟩, rfl, ?_⟩
    · rw [rest, List.append_assoc]
    · rw [offset, Text.Utf8.size_append, Nat.add_assoc]
  · intro h
    obtain ⟨m, ⟨rest, offset⟩, rest', offset'⟩ := h
    constructor
    · rw [rest, rest', List.append_assoc]
    · rw [offset', offset, Text.Utf8.size_append, Nat.add_assoc]

theorem overCons {c after : Cursor} {x : Char} {more : List Char} :
    c.Over (x :: more) after ↔ ∃ m, c.Over [x] m ∧ m.Over more after := by
  rw [← overAppend, List.singleton_append]

theorem Cursor.Over.head {c after : Cursor} {x : Char} {more : List Char} (h : c.Over (x :: more) after) :
    c.rest.head? = some x := by
  rw [h.1]
  rfl

theorem Cursor.Over.length {c after : Cursor} {chars : List Char} (h : c.Over chars after) :
    c.rest.length = chars.length + after.rest.length := by
  rw [h.1, List.length_append]

theorem overAtEnd {c after : Cursor} {chars : List Char} {x : Char} (ended : c.rest.length ≤ 0) :
    ¬ c.Over (chars ++ [x]) after := by
  intro h
  have length := h.length
  rw [List.length_append, List.length_singleton] at length
  omega

theorem overSkip {c after : Cursor} {x : Char} : c.Over [x] after ↔ c.rest.head? = some x ∧ c.skip = after := by
  obtain ⟨offset, rest⟩ := c
  obtain ⟨offset', rest'⟩ := after
  unfold Cursor.Over Cursor.skip
  cases rest with
  | nil => simp
  | cons y rest =>
    simp only [List.singleton_append, List.cons.injEq, Text.Utf8.size_cons, List.head?_cons, Option.some.injEq,
      Cursor.mk.injEq]
    constructor
    · intro h
      obtain ⟨⟨same, same'⟩, size⟩ := h
      subst same
      exact ⟨rfl, by rw [size]; rfl, same'⟩
    · intro h
      obtain ⟨same, size, same'⟩ := h
      subst same
      exact ⟨⟨rfl, same'⟩, by rw [← size]; rfl⟩

/-! The steps of readers. -/

theorem okOfBind {ε : Type} {x : Except ε α} {f : α → Except ε β} {b : β} (h : (x >>= f) = .ok b) :
    ∃ a, x = .ok a ∧ f a = .ok b := by
  cases x with
  | error e => cases h
  | ok a => exact ⟨a, rfl, h⟩

theorem pureOk {a b : α} {c after : Cursor} :
    (pure a : Reader α) c = .ok (b, after) ↔ a = b ∧ after = c := by
  change Except.ok (a, c) = Except.ok (b, after) ↔ _
  simp [eq_comm]

theorem bindOk {r : Reader α} {f : α → Reader β} {b : β} {c after : Cursor} :
    (r >>= f) c = .ok (b, after) ↔ ∃ a m, r c = .ok (a, m) ∧ f a m = .ok (b, after) := by
  change (r c >>= fun p => f p.1 p.2) = _ ↔ _
  cases r c with
  | error e => simp [bind, Except.bind]
  | ok p =>
    obtain ⟨a, m⟩ := p
    constructor
    · intro h
      exact ⟨a, m, rfl, h⟩
    · intro h
      obtain ⟨a', m', same, h⟩ := h
      cases same
      exact h

theorem bindOf {r : Reader α} {f : α → Reader β} {a : α} {c m : Cursor} (h : r c = .ok (a, m)) :
    (r >>= f) c = f a m := by
  change (r c >>= fun p => f p.1 p.2) = _
  rw [h]
  rfl

theorem mapOk {r : Reader α} {f : α → β} {b : β} {c after : Cursor} :
    (f <$> r) c = .ok (b, after) ↔ ∃ a, r c = .ok (a, after) ∧ f a = b := by
  rw [map_eq_pure_bind, bindOk]
  simp only [pureOk]
  constructor
  · intro h
    obtain ⟨a, m, read, same, place⟩ := h
    exact ⟨a, place ▸ read, same⟩
  · intro h
    obtain ⟨a, read, same⟩ := h
    exact ⟨a, after, read, same, rfl⟩

theorem refuseOk {cause : Cause} {a : α} {c after : Cursor} :
    (Reader.refuse cause : Reader α) c = .ok (a, after) ↔ False := by
  simp [Reader.refuse]

theorem peekOk {f : Option Char → Reader α} {c : Cursor} : (Reader.peek >>= f) c = f c.rest.head? c := rfl

theorem advanceOk {x : Char} {u : Unit} {c after : Cursor} (head : c.rest.head? = some x) :
    Reader.advance c = .ok (u, after) ↔ c.Over [x] after := by
  unfold Reader.advance
  rw [overSkip]
  simp [head]

theorem expectOk {x : Char} {u : Unit} {c after : Cursor} :
    Reader.expect x c = .ok (u, after) ↔ c.Over [x] after := by
  unfold Reader.expect
  rw [overSkip]
  split
  · next head => simp [head]
  · next head => simp [head]

theorem eatOk {x : Char} {yes no : Reader α} {a : α} {c after : Cursor} :
    (Reader.eat x >>= fun found => if found = true then yes else no) c = .ok (a, after) ↔
      (∃ m, c.Over [x] m ∧ yes m = .ok (a, after)) ∨ (c.rest.head? ≠ some x ∧ no c = .ok (a, after)) := by
  rw [bindOk]
  unfold Reader.eat
  by_cases head : c.rest.head? = some x
  · simp [head, overSkip]
  · simp [head, overSkip]

theorem refusedAtEnd {x : Char} {cause : Cause} {yes : Reader α} {a : α} {c after : Cursor}
    (ended : c.rest.length ≤ 0) :
    ¬ (Reader.eat x >>= fun found => if found = true then yes else Reader.refuse cause) c = .ok (a, after) := by
  rw [eatOk]
  intro h
  obtain ⟨m, taken, _⟩ | ⟨_, h⟩ := h
  · have none : ¬ c.Over ([] ++ [x]) m := overAtEnd ended
    exact none taken
  · cases h

theorem atEndOk {yes no : Reader α} {c : Cursor} :
    (Reader.atEnd >>= fun ended => if ended = true then yes else no) c =
      (if c.rest.length = 0 then yes else no) c := by
  change (if c.rest.isEmpty = true then yes else no) c = _
  cases rest : c.rest with
  | nil => rfl
  | cons x more => rfl

theorem readEndOk {cause : Cause} {u : Unit} {c after : Cursor} :
    readEnd cause c = .ok (u, after) ↔ c.rest = [] ∧ after = c := by
  change (if c.rest.isEmpty = true then pure () else Reader.refuse cause : Reader Unit) c = _ ↔ _
  cases rest : c.rest with
  | nil => simp [pureOk]
  | cons x more => simp [refuseOk]

theorem runOk {r : Reader α} {text : String} {a : α} :
    r.run text = .ok a ↔ ∃ after, r (.start text) = .ok (a, after) := by
  unfold Reader.run
  cases r (.start text) with
  | error e => simp
  | ok p => simp [Prod.ext_iff]

theorem runPrints {r : Reader α} {chars : α → List Char} {Good : α → Prop} {text : String} {a : α}
    (takes : ∀ after, r (.start text) = .ok (a, after) ↔
      Good a ∧ (Cursor.start text).Over (chars a) after ∧ after.rest = []) :
    r.run text = .ok a ↔ Good a ∧ String.ofList (chars a) = text := by
  rw [runOk]
  constructor
  · intro h
    obtain ⟨after, h⟩ := h
    obtain ⟨good, taken, ended⟩ := (takes after).mp h
    have same : text.toList = chars a := by
      have rest := taken.1
      rw [ended, List.append_nil] at rest
      exact rest
    rw [← same, String.ofList_toList]
    exact ⟨good, rfl⟩
  · intro h
    obtain ⟨good, print⟩ := h
    have taken : (Cursor.start text).Over (chars a) ⟨Text.Utf8.size (chars a), []⟩ := by
      rw [← print]
      constructor
      · change (String.ofList (chars a)).toList = chars a ++ []
        rw [String.toList_ofList, List.append_nil]
      · exact (Nat.zero_add _).symm
    exact ⟨_, (takes _).mpr ⟨good, taken, rfl⟩⟩

/-! Names. -/

def Named (slashes : Bool) (name : List Char) : Prop :=
  name ≠ [] ∧ ∀ x ∈ name, x ∈ reserved → x = '/' ∧ slashes = true

/- The characters up to one that stops a name; those that structure signatures are not among them, except
slashes where they are admitted. -/
structure Cursor.Spans (stops : List Char) (slashes : Bool) (c : Cursor) (name : List Char) (after : Cursor) :
    Prop where
  named : ∀ x ∈ name, x ∈ reserved → x = '/' ∧ slashes = true
  taken : c.Over name after
  stopped : ∃ x ∈ stops, after.rest.head? = some x

section
variable {stops : List Char} {slashes : Bool} {name : List Char} {after : Cursor} {offset : Nat} {y : Char}
  {rest : List Char}

theorem spansNothing : ¬ Cursor.Spans stops slashes ⟨offset, []⟩ name after := by
  rintro ⟨_, taken, x, _, head⟩
  have empty := taken.1
  rw [eq_comm, List.append_eq_nil_iff] at empty
  rw [empty.2] at head
  cases head

theorem spansToStop (structural : ∀ x ∈ stops, x ∈ reserved ∧ x ≠ '/') (stop : y ∈ stops) :
    Cursor.Spans stops slashes ⟨offset, y :: rest⟩ name after ↔ name = [] ∧ after = ⟨offset, y :: rest⟩ := by
  constructor
  · rintro ⟨named, taken, _⟩
    cases name with
    | nil => exact ⟨rfl, overNil.mp taken⟩
    | cons z name =>
      have same : y = z := Option.some.inj taken.head
      obtain ⟨isReserved, notSlash⟩ := structural y stop
      exact absurd (named y (same ▸ List.mem_cons_self) isReserved).1 notSlash
  · rintro ⟨rfl, rfl⟩
    exact ⟨by simp, overNil.mpr rfl, y, stop, rfl⟩

theorem spansOn (other : y ∉ stops) :
    Cursor.Spans stops slashes ⟨offset, y :: rest⟩ name after ↔
      ∃ tail, name = y :: tail ∧ (y ∈ reserved → y = '/' ∧ slashes = true) ∧
        Cursor.Spans stops slashes ⟨offset + y.utf8Size, rest⟩ tail after := by
  have next : (⟨offset, y :: rest⟩ : Cursor).Over [y] ⟨offset + y.utf8Size, rest⟩ := overSkip.mpr ⟨rfl, rfl⟩
  constructor
  · rintro ⟨named, taken, x, atStop, head⟩
    cases name with
    | nil =>
      rw [overNil.mp taken] at head
      cases head
      exact absurd atStop other
    | cons z tail =>
      have same : y = z := Option.some.inj taken.head
      subst same
      obtain ⟨m, first, more⟩ := overCons.mp taken
      have place : m = ⟨offset + y.utf8Size, rest⟩ := (overSkip.mp first).2.symm
      subst place
      obtain ⟨admitted, named⟩ := List.forall_mem_cons.mp named
      exact ⟨tail, rfl, admitted, named, more, x, atStop, head⟩
  · rintro ⟨tail, rfl, admitted, named, taken, stopped⟩
    exact ⟨List.forall_mem_cons.mpr ⟨admitted, named⟩, overCons.mpr ⟨_, next, taken⟩, stopped⟩

end

theorem scanOk {stops : List Char} {slashes : Bool} (structural : ∀ x ∈ stops, x ∈ reserved ∧ x ≠ '/')
    {name : List Char} {c after : Cursor} :
    scanName stops slashes c = .ok (name, after) ↔ c.Spans stops slashes name after := by
  obtain ⟨offset, rest⟩ := c
  induction rest generalizing offset name with
  | nil =>
    rw [scanName]
    exact iff_of_false (by simp) spansNothing
  | cons y rest ih =>
    rw [scanName]
    by_cases stop : y ∈ stops
    · rw [if_pos stop, spansToStop structural stop]
      simp [eq_comm]
    · rw [if_neg stop, spansOn stop]
      split
      · next bad =>
        have refused : ¬ (y ∈ reserved → y = '/' ∧ slashes = true) := by
          simp only [Bool.and_eq_true, decide_eq_true_eq, Bool.not_eq_true', Bool.and_eq_false_iff,
            decide_eq_false_iff_not] at bad
          intro admitted
          obtain ⟨isSlash, slashes⟩ := admitted bad.1
          simp [isSlash, slashes] at bad
        refine iff_of_false (by simp) ?_
        rintro ⟨tail, _, admitted, _⟩
        exact refused admitted
      · next good =>
        have admitted : y ∈ reserved → y = '/' ∧ slashes = true := by
          intro isReserved
          simpa [isReserved] using good
        constructor
        · intro h
          obtain ⟨⟨tail, place⟩, scanned, same⟩ := okOfBind h
          cases same
          exact ⟨tail, rfl, admitted, (ih _).mp scanned⟩
        · rintro ⟨tail, rfl, _, spans⟩
          rw [(ih _).mpr spans]
          rfl

theorem readNameOk {stops : List Char} {slashes : Bool} (structural : ∀ x ∈ stops, x ∈ reserved ∧ x ≠ '/')
    {name : String} {c after : Cursor} :
    readName stops slashes c = .ok (name, after) ↔
      Named slashes name.toList ∧ c.Over name.toList after ∧ ∃ x ∈ stops, after.rest.head? = some x := by
  unfold readName Named
  constructor
  · intro h
    obtain ⟨⟨chars, place⟩, scanned, same⟩ := okOfBind h
    obtain ⟨named, taken, stopped⟩ := (scanOk structural).mp scanned
    cases chars with
    | nil => cases same
    | cons x chars =>
      cases same
      rw [String.toList_ofList]
      exact ⟨⟨List.cons_ne_nil _ _, named⟩, taken, stopped⟩
  · intro h
    obtain ⟨⟨nonempty, named⟩, taken, stopped⟩ := h
    rw [(scanOk structural).mpr ⟨named, taken, stopped⟩]
    have same := String.ofList_toList (s := name)
    cases chars : name.toList with
    | nil => exact absurd chars nonempty
    | cons x chars' =>
      rw [chars] at same
      change Except.ok (String.ofList (x :: chars'), after) = _
      rw [same]

/-! Array dimensions. -/

theorem readDimsOther {depth total : UInt8} {c after : Cursor} (other : c.rest.head? ≠ some '[') :
    readDims depth c = .ok (total, after) ↔
      ∃ more, total.toNat = depth.toNat + more ∧ c.Over (List.replicate more '[') after ∧
        after.rest.head? ≠ some '[' := by
  have stop : readDims depth c = .ok (depth, c) := by
    rw [readDims]
    intro offset rest same
    rw [same] at other
    exact absurd rfl other
  rw [stop]
  constructor
  · intro h
    cases h
    exact ⟨0, rfl, overNil.mpr rfl, other⟩
  · intro h
    obtain ⟨more, sum, taken, _⟩ := h
    cases more with
    | zero => rw [overNil.mp taken, UInt8.toNat_inj.mp sum]
    | succ more => exact absurd taken.head other

theorem readDimsOk {depth total : UInt8} {c after : Cursor} :
    readDims depth c = .ok (total, after) ↔
      ∃ more, total.toNat = depth.toNat + more ∧ c.Over (List.replicate more '[') after ∧
        after.rest.head? ≠ some '[' := by
  obtain ⟨offset, rest⟩ := c
  induction rest generalizing offset depth with
  | nil => exact readDimsOther (by simp)
  | cons y rest ih =>
    by_cases bracket : y = '['
    · subst bracket
      have first : (⟨offset, '[' :: rest⟩ : Cursor).Over ['['] ⟨offset + 1, rest⟩ := overSkip.mpr ⟨rfl, rfl⟩
      rw [readDims]
      by_cases full : depth = 255
      · rw [if_pos full]
        constructor
        · intro h
          cases h
        · intro h
          obtain ⟨more, sum, taken, other⟩ := h
          cases more with
          | zero =>
            rw [overNil.mp taken] at other
            exact absurd rfl other
          | succ more =>
            have bound := total.toNat_lt
            subst full
            change total.toNat = 255 + (more + 1) at sum
            omega
      · rw [if_neg full, ih]
        have small : depth.toNat < 255 := by
          have bound := depth.toNat_lt
          have other : depth.toNat ≠ 255 := by
            intro same
            exact full (UInt8.toNat_inj.mp same)
          omega
        have sum : (depth + 1).toNat = depth.toNat + 1 := by
          rw [UInt8.toNat_add]
          change (depth.toNat + 1) % 256 = _
          omega
        constructor
        · intro h
          obtain ⟨more, total, taken, other⟩ := h
          exact ⟨more + 1, by omega, overCons.mpr ⟨_, first, taken⟩, other⟩
        · intro h
          obtain ⟨more, total, taken, other⟩ := h
          cases more with
          | zero =>
            rw [overNil.mp taken] at other
            exact absurd rfl other
          | succ more =>
            obtain ⟨m, first', tail⟩ := overCons.mp taken
            have place : m = ⟨offset + 1, rest⟩ := (overSkip.mp first').2.symm
            exact ⟨more, by omega, place ▸ tail, other⟩
    · exact readDimsOther (by simpa using bracket)

theorem readDepthOk {depth : UInt8} {c after : Cursor} :
    readDepth c = .ok (depth, after) ↔ c.Over (bracketChars depth) after ∧ after.rest.head? ≠ some '[' := by
  unfold readDepth bracketChars
  rw [readDimsOk]
  simp

theorem readDepthNone {c : Cursor} (other : c.rest.head? ≠ some '[') : readDepth c = .ok (0, c) :=
  readDepthOk.mpr ⟨overNil.mpr rfl, other⟩

end SymbolCatalog.Signature
