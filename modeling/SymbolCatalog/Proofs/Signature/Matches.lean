import SymbolCatalog.Proofs.Ends
import SymbolCatalog.Proofs.Signature.Reading
import SymbolCatalog.Proofs.Signature.Scanner
import SymbolCatalog.Proofs.Text.Boundaries

/-! Scanners beside readers. The characters that structure signatures are single bytes, and no byte
of a longer character is one of them, so a step that both take leads to the same place again. -/
namespace SymbolCatalog.Signature
open Text Scanner
variable {α β : Type} {text : String} {c after : Cursor} {s : Scanner} {l m n : Nat}

/-! Single bytes. -/

theorem latinVal (b : UInt8) : (latin b).val.toNat = b.toNat := by
  have valid : b.toNat.isValidChar := by
    have small := b.toNat_lt
    exact .inl (by omega)
  rw [latin, Char.ofNat, dif_pos valid]
  rfl

theorem asciiAlone {x want : Char} (ascii : want.val.toNat < 128) {b : UInt8}
    (member : b ∈ String.utf8EncodeChar x) (same : latin b = want) : x = want := by
  have code : b.toNat = want.val.toNat := by rw [← same, latinVal]
  by_cases long : 0x7f < x.val.toNat
  · have high := Utf8.longBytes long b member
    omega
  · unfold String.utf8EncodeChar at member
    dsimp only at member
    rw [if_pos (by omega), List.mem_singleton] at member
    subst member
    rw [← same, latin, Utf8.leadOf (by omega), Utf8.ofNatVal]

theorem shownAscii {x : Char} (ascii : x.val.toNat < 128) : shown x = x := by
  unfold shown Utf8.lead String.utf8EncodeChar
  dsimp only
  rw [if_pos (by omega), List.headD_cons, Utf8.leadOf (by omega), Utf8.ofNatVal]

theorem shownIff {x want : Char} (ascii : want.val.toNat < 128) : shown x = want ↔ x = want := by
  constructor
  · obtain ⟨tail, bytes⟩ := Utf8.encodeHead x
    exact asciiAlone ascii (by simp [bytes])
  · intro same
    subst same
    exact shownAscii ascii

theorem seenIff {next? seen? : Option Char} {want : Char} (ascii : want.val.toNat < 128)
    (seen : seen? = next?.map shown) : seen? = some want ↔ next? = some want := by
  subst seen
  cases next? with
  | none => simp
  | some x => simp [shownIff ascii]

theorem seenAs {next? : Option Char} {want : Char} (ascii : want.val.toNat < 128)
    (seen : some want = next?.map shown) : next? = some want := (seenIff ascii seen).mp rfl

/-! Places. -/

structure Slice (text : String) (slice : Nat × Nat) : Prop where
  ordered : slice.1 ≤ slice.2
  inside : slice.2 ≤ (Utf8.encode text).length
  begins : Utf8.Boundary text slice.1
  ends : Utf8.Boundary text slice.2

structure Follows (text : String) (c : Cursor) (s : Scanner) : Prop where
  bytes : s.bytes = Utf8.encode text
  pos : s.pos = c.offset
  place : ∃ before, text.toList = before ++ c.rest ∧ c.offset = Utf8.size before
  slices : ∀ slice ∈ s.slices, Slice text slice

theorem boundaryTested {i : Nat} (bytes : s.bytes = Utf8.encode text) :
    s.onBoundary i = true ↔ Utf8.Boundary text i := by
  unfold Scanner.onBoundary
  simp only [bytes, Bool.or_eq_true, decide_eq_true_eq, Option.any_eq_true, Bool.not_eq_true']
  constructor
  · intro h
    obtain (first | last) | ⟨b, byte, begins⟩ := h
    · exact ⟨[], text.toList, rfl, first⟩
    · exact ⟨text.toList, [], (List.append_nil _).symm, last.trans (Utf8.encodeLength text)⟩
    · exact Utf8.boundaryOfByte byte begins
  · intro h
    obtain ⟨before, after, split, size⟩ := h
    have length : (Utf8.encodeChars before).length = i := by rw [Utf8.length_encodeChars, size]
    rw [Utf8.encodeLength, Utf8.encode, split, Utf8.encodeChars_append, Utf8.size_append, ← size]
    cases after with
    | nil => exact .inl (.inr rfl)
    | cons x after =>
      obtain ⟨tail, encoded⟩ := Utf8.encodeHead x
      refine .inr ⟨Utf8.lead x, ?_, Utf8.leadBegins x⟩
      rw [List.getElem?_append_right (Nat.le_of_eq length), length, Nat.sub_self]
      simp [Utf8.encodeChars, encoded]

example : (⟨Utf8.encode "Lé;", 0, []⟩ : Scanner).onBoundary 2 = false := by decide

namespace Follows

theorem start (text : String) : Follows text (.start text) (.start text) where
  bytes := rfl
  pos := rfl
  place := ⟨[], rfl, rfl⟩
  slices := by simp [Scanner.start]

theorem boundary (h : Follows text c s) : Utf8.Boundary text c.offset := by
  obtain ⟨before, split, size⟩ := h.place
  exact ⟨before, c.rest, split, size⟩

theorem length (h : Follows text c s) : s.bytes.length = c.offset + Utf8.size c.rest := by
  obtain ⟨before, split, size⟩ := h.place
  rw [h.bytes, Utf8.encodeLength, split, Utf8.size_append, size]

theorem left (h : Follows text c s) : s.bytes.drop s.pos = Utf8.encodeChars c.rest := by
  obtain ⟨before, split, size⟩ := h.place
  rw [h.bytes, h.pos, Utf8.encode, split, Utf8.encodeChars_append]
  exact List.drop_left' (by rw [Utf8.length_encodeChars, size])

theorem next (h : Follows text c s) : s.next? = c.rest.head?.map shown := by
  have first : s.bytes[s.pos]? = (Utf8.encodeChars c.rest)[0]? := by
    rw [← h.left, List.getElem?_drop, Nat.add_zero]
  unfold Scanner.next?
  rw [first]
  cases c.rest with
  | nil => rfl
  | cons x rest =>
    obtain ⟨tail, encoded⟩ := Utf8.encodeHead x
    simp [Utf8.encodeChars, encoded, shown, latin]

theorem along {chars : List Char} (h : Follows text c s) (taken : c.Over chars after) :
    Follows text after (s.moved (Utf8.size chars)) where
  bytes := h.bytes
  pos := by
    change s.pos + _ = _
    rw [h.pos, taken.2]
  place := by
    obtain ⟨before, split, size⟩ := h.place
    refine ⟨before ++ chars, ?_, ?_⟩
    · rw [split, taken.1, List.append_assoc]
    · rw [taken.2, size, Utf8.size_append]
  slices := h.slices

theorem skip {x : Char} (h : Follows text c s) (ascii : x.val.toNat < 128) (head : c.rest.head? = some x) :
    Follows text c.skip (s.moved 1) ∧ c.skip.rest.length < c.rest.length := by
  have taken : c.Over [x] c.skip := overSkip.mpr ⟨head, rfl⟩
  have length := taken.length
  have moved := h.along taken
  rw [List.length_singleton] at length
  rw [Utf8.size_cons, Utf8.sizeAscii ascii] at moved
  exact ⟨moved, by omega⟩

theorem within {x : Char} (h : Follows text c s) (head : c.rest.head? = some x) :
    c.offset + 1 ≤ (Utf8.encode text).length := by
  have length := h.length
  have size := Char.utf8Size_pos x
  obtain ⟨rest, split⟩ := List.head?_eq_some_iff.mp head
  rw [h.bytes, split, Utf8.size_cons] at length
  omega

end Follows

/-! Answers. -/

/- A scan answers as a reader does: with the same value at the same place, where fewer than `n` characters
are left, or with the same refusal, which points into the text. Neither panic nor exhaustion is an answer. -/
inductive Answers (text : String) (n : Nat) : Except Fault (α × Cursor) → Except Halt α × Scanner → Prop
  | value {a : α} {after : Cursor} {s : Scanner} (follows : Follows text after s) (left : after.rest.length < n) :
      Answers text n (.ok (a, after)) (.ok a, s)
  | refusal {fault : Fault} {s : Scanner} (inside : fault.offset ≤ (Utf8.encode text).length)
      (slices : ∀ slice ∈ s.slices, Slice text slice) : Answers text n (.error fault) (.error (.fault fault), s)

def Matches (text : String) (n m : Nat) (read : Reader α) (scan : Scan α) : Prop :=
  ∀ c s, Follows text c s → c.rest.length ≤ n → Answers text m (read c) (scan s)

theorem Answers.weaken {read : Except Fault (α × Cursor)} {scan : Except Halt α × Scanner}
    (h : Answers text m read scan) (le : m ≤ n) : Answers text n read scan := by
  cases h with
  | value follows left => exact .value follows (Nat.lt_of_lt_of_le left le)
  | refusal inside slices => exact .refusal inside slices

theorem Follows.refused (h : Follows text c s) (cause : Cause) :
    Answers text n (.error ⟨c.offset, cause⟩ : Except Fault (α × Cursor)) (.error (.fault ⟨s.pos, cause⟩), s) := by
  rw [h.pos]
  exact .refusal h.boundary.inside h.slices

theorem scanPeek {more : Option Char → Scan α} : (Scan.peek >>= more) s = more s.next? s := rfl

namespace Matches
variable {read : Reader α} {scan : Scan α}

theorem weaken (h : Matches text n l read scan) (le : l ≤ m) : Matches text n m read scan := by
  intro c s follows left
  exact (h c s follows left).weaken le

theorem pure (a : α) : Matches text n (n + 1) (Pure.pure a : Reader α) (Pure.pure a : Scan α) := by
  intro c s follows left
  exact .value follows (Nat.lt_succ_of_le left)

theorem refuse (cause : Cause) : Matches text n m (Reader.refuse cause : Reader α) (Scan.refuse cause) := by
  intro c s follows _
  exact follows.refused cause

theorem bind {more : α → Reader β} {more' : α → Scan β} (first : Matches text n l read scan)
    (rest : ∀ a k, k < l → Matches text k m (more a) (more' a)) :
    Matches text n m (read >>= more) (scan >>= more') := by
  intro c s follows left
  rw [ExceptT.runBind]
  change Answers text m (read c >>= fun p => more p.1 p.2) _
  have answers := first c s follows left
  revert answers
  generalize read c = answer
  generalize scan s = answer'
  intro answers
  cases answers with
  | value follows left => exact rest _ _ left _ _ follows (Nat.le_refl _)
  | refusal inside slices => exact .refusal inside slices

theorem map {f : α → β} (h : Matches text n m read scan) : Matches text n m (f <$> read) (f <$> scan) := by
  rw [map_eq_pure_bind, map_eq_pure_bind]
  exact h.bind fun a k lt => (Matches.pure (f a)).weaken lt

theorem ite {p : Prop} [Decidable p] {other : Reader α} {other' : Scan α} (yes : p → Matches text n m read scan)
    (no : ¬ p → Matches text n m other other') :
    Matches text n m (if p then read else other) (if p then scan else other') := by
  split
  · next h => exact yes h
  · next h => exact no h

theorem atEndAs {other : Reader α} (same : ∀ offset, read ⟨offset, []⟩ = other ⟨offset, []⟩)
    (h : Matches text 0 m other scan) : Matches text 0 m read scan := by
  intro c s follows left
  obtain ⟨offset, rest⟩ := c
  have empty : rest = [] := List.length_eq_zero_iff.mp (Nat.le_zero.mp left)
  subst empty
  rw [same]
  exact h _ _ follows left

theorem peek {more : Option Char → Reader α} {more' : Option Char → Scan α}
    (rest : ∀ next? seen? c s, c.rest.head? = next? → seen? = next?.map shown → Follows text c s →
      c.rest.length ≤ n → Answers text m (more next? c) (more' seen? s)) :
    Matches text n m (Reader.peek >>= more) (Scan.peek >>= more') := by
  intro c s follows left
  rw [peekOk, scanPeek]
  exact rest _ _ c s rfl follows.next follows left

theorem bump {more : Option Char → Reader α} {more' : Option Char → Scan α}
    (rest : ∀ next? seen? c s, c.rest.head? = next? → seen? = next?.map shown → Follows text c s →
      c.rest.length ≤ n → Answers text m (more next? c) (more' seen? (if seen?.isSome then s.moved 1 else s))) :
    Matches text n m (Reader.peek >>= more) (Scan.bump >>= more') := by
  intro c s follows left
  rw [peekOk, ExceptT.runBind]
  exact rest _ _ c s rfl follows.next follows left

theorem expect (want : Char) (ascii : want.val.toNat < 128) :
    Matches text n n (Reader.expect want) (Scan.expect want) := by
  intro c s follows left
  unfold Reader.expect Scan.expect
  rw [follows.next]
  by_cases found : c.rest.head? = some want
  · obtain ⟨moved, shorter⟩ := follows.skip ascii found
    rw [if_pos found, if_pos ((seenIff ascii rfl).mpr found)]
    exact .value moved (Nat.lt_of_lt_of_le shorter left)
  · rw [if_neg found, if_neg fun seen => found ((seenIff ascii rfl).mp seen)]
    exact follows.refused _

theorem eat {yes no : Reader α} {yes' no' : Scan α} (want : Char) (ascii : want.val.toNat < 128)
    (found : ∀ k, k < n → Matches text k m yes yes') (other : Matches text n m no no') :
    Matches text n m (Reader.eat want >>= fun found => if found = true then yes else no)
      (Scan.eat want >>= fun found => if found = true then yes' else no') := by
  intro c s follows left
  rw [ExceptT.runBind]
  unfold Scan.eat
  rw [follows.next]
  by_cases head : c.rest.head? = some want
  · obtain ⟨moved, shorter⟩ := follows.skip ascii head
    have eaten : Reader.eat want c = .ok (true, c.skip) := if_pos head
    rw [if_pos ((seenIff ascii rfl).mpr head), bindOf eaten]
    exact found _ (Nat.lt_of_lt_of_le shorter left) _ _ moved (Nat.le_refl _)
  · have kept : Reader.eat want c = .ok (false, c) := if_neg head
    rw [if_neg fun seen => head ((seenIff ascii rfl).mp seen), bindOf kept]
    exact other _ _ follows left

theorem atEnd {yes no : Reader α} {yes' no' : Scan α} (ended : Matches text 0 m yes yes')
    (more : Matches text n m no no') :
    Matches text n m (Reader.atEnd >>= fun ended => if ended = true then yes else no)
      (Scan.atEnd >>= fun ended => if ended = true then yes' else no') := by
  intro c s follows left
  rw [atEndOk, ExceptT.runBind]
  change Answers text m _ ((if decide (s.bytes.length ≤ s.pos) = true then yes' else no') s)
  have same : s.bytes.length ≤ s.pos ↔ c.rest.length = 0 := by
    rw [follows.length, follows.pos]
    cases c.rest with
    | nil => simp [Utf8.size]
    | cons x rest =>
      have size := Char.utf8Size_pos x
      rw [Utf8.size_cons, List.length_cons]
      omega
  simp only [same, decide_eq_true_eq]
  split
  · next none => exact ended c s follows (Nat.le_of_eq none)
  · exact more c s follows left

end Matches

end SymbolCatalog.Signature
