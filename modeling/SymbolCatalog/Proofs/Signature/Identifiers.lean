import SymbolCatalog.Proofs.Signature.Matches

/-! Names are scanned to the byte that stops them, and cut out of the text. A character is admitted to a name
or ends it as its bytes do, so both ends of a name are boundaries of the text. -/
namespace SymbolCatalog.Signature
open Text Scanner
variable {text : String} {c after : Cursor} {s : Scanner} {n : Nat}

theorem reservedAscii : ∀ x ∈ reserved, x.val.toNat < 128 := by simp [reserved]

section
variable {stops : List Char} {slashes : Bool} {rounds : Nat}

theorem toStopPasses {bytes more : Bytes} (admitted : ∀ b ∈ bytes, latin b ∉ stops ∧
      ¬ (decide (latin b ∈ reserved) && !(decide (latin b = '/') && slashes)) = true)
    (left : s.bytes.drop s.pos = bytes ++ more) :
    Scan.toStop stops slashes (bytes.length + rounds) s =
      Scan.toStop stops slashes rounds (s.moved bytes.length) := by
  induction bytes generalizing s with
  | nil => simp [Scanner.moved]
  | cons b bytes ih =>
    obtain ⟨⟨noStop, allowed⟩, admitted⟩ := List.forall_mem_cons.mp admitted
    have next : s.next? = some (latin b) := by
      unfold Scanner.next?
      rw [← Nat.add_zero s.pos, ← List.getElem?_drop, left]
      rfl
    have left' : (s.moved 1).bytes.drop (s.moved 1).pos = bytes ++ more := by
      change s.bytes.drop (s.pos + 1) = _
      rw [← List.drop_drop, left]
      rfl
    have rest := ih admitted left'
    rw [List.length_cons, Nat.succ_add, Scan.toStop, scanPeek, next]
    dsimp only
    rw [if_neg noStop, if_neg allowed, ExceptT.runBind]
    change Scan.toStop stops slashes (bytes.length + rounds) (s.moved 1) = _
    rw [rest]
    simp [Scanner.moved, Nat.add_comm, Nat.add_left_comm]

theorem cutTaken {name : List Char} (taken : c.Over name after)
    (place : ∃ before, text.toList = before ++ c.rest ∧ c.offset = Utf8.size before)
    (follows : Follows text after s) :
    Scan.cut c.offset s = (.ok (String.ofList name), { s with slices := (c.offset, s.pos) :: s.slices }) ∧
      Slice text (c.offset, s.pos) := by
  obtain ⟨before, split, size⟩ := place
  have begins : Utf8.Boundary text c.offset := ⟨before, c.rest, split, size⟩
  have ends : Utf8.Boundary text s.pos := follows.pos ▸ follows.boundary
  have pos : s.pos = c.offset + Utf8.size name := by rw [follows.pos, taken.2]
  have inside : s.pos ≤ s.bytes.length := by
    rw [follows.bytes]
    exact ends.inside
  have between : (s.bytes.drop c.offset).take (s.pos - c.offset) = Utf8.encodeChars name := by
    rw [pos, Nat.add_sub_cancel_left, follows.bytes, Utf8.encode, split, taken.1, Utf8.encodeChars_append,
      Utf8.encodeChars_append, List.drop_left' (by rw [Utf8.length_encodeChars, size]),
      List.take_left' (Utf8.length_encodeChars name)]
  constructor
  · unfold Scan.cut
    dsimp only
    have ordered : c.offset ≤ s.pos := by omega
    rw [(boundaryTested follows.bytes).mpr begins, (boundaryTested follows.bytes).mpr ends, between, Utf8.decode,
      Utf8.decodeFromEncoded]
    simp only [ordered, inside, decide_true, Bool.and_self, if_true]
    rfl
  · exact ⟨by simp only; omega, by simpa only [follows.bytes] using inside, begins, ends⟩

variable (structural : ∀ x ∈ stops, x ∈ reserved ∧ x ≠ '/')
include structural

theorem bytesAdmitted {x : Char} (noStop : x ∉ stops)
    (allowed : ¬ (decide (x ∈ reserved) && !(decide (x = '/') && slashes)) = true) :
    ∀ b ∈ String.utf8EncodeChar x, latin b ∉ stops ∧
      ¬ (decide (latin b ∈ reserved) && !(decide (latin b = '/') && slashes)) = true := by
  intro b member
  by_cases single : latin b ∈ reserved
  · rw [← asciiAlone (reservedAscii _ single) member rfl]
    exact ⟨noStop, allowed⟩
  · exact ⟨fun stop => single (structural _ stop).1, by simp [single]⟩

theorem toStopAnswers (follows : Follows text c s) (enough : Utf8.size c.rest < rounds) :
    Answers text (c.rest.length + 1) ((scanName stops slashes c).map fun found => ((), found.2))
      (Scan.toStop stops slashes rounds s) := by
  obtain ⟨offset, rest⟩ := c
  induction rest generalizing offset s rounds with
  | nil =>
    obtain ⟨rounds, rfl⟩ : ∃ k, rounds = k + 1 := Nat.exists_eq_add_one_of_ne_zero (by omega)
    rw [scanName, Scan.toStop, scanPeek, follows.next]
    exact follows.refused _
  | cons x rest ih =>
    -- A character that ends the scan is a single byte; any other one is passed over with all its bytes.
    by_cases single : x ∈ stops ∨ (decide (x ∈ reserved) && !(decide (x = '/') && slashes)) = true
    · have ascii : x.val.toNat < 128 := by
        obtain stop | refused := single
        · exact reservedAscii _ (structural _ stop).1
        · simp only [Bool.and_eq_true, decide_eq_true_eq] at refused
          exact reservedAscii _ refused.1
      obtain ⟨rounds, rfl⟩ : ∃ k, rounds = k + 1 := Nat.exists_eq_add_one_of_ne_zero (by omega)
      rw [scanName, Scan.toStop, scanPeek, follows.next, List.head?_cons, Option.map_some, shownAscii ascii]
      dsimp only
      by_cases stop : x ∈ stops
      · rw [if_pos stop, if_pos stop]
        exact .value follows (Nat.lt_succ_self _)
      · obtain stop' | refused := single
        · exact absurd stop' stop
        · rw [if_neg stop, if_neg stop, if_pos refused, if_pos refused]
          exact follows.refused _
    · obtain ⟨noStop, allowed⟩ := not_or.mp single
      have next : (⟨offset, x :: rest⟩ : Cursor).Over [x] ⟨offset + x.utf8Size, rest⟩ := overSkip.mpr ⟨rfl, rfl⟩
      have length := String.length_utf8EncodeChar x
      rw [Utf8.size_cons] at enough
      obtain ⟨rounds, rfl⟩ : ∃ k, rounds = (String.utf8EncodeChar x).length + k := ⟨rounds - x.utf8Size, by omega⟩
      have left : s.bytes.drop s.pos = String.utf8EncodeChar x ++ Utf8.encodeChars rest := follows.left
      have admitted := bytesAdmitted structural noStop allowed
      rw [scanName, if_neg noStop, if_neg allowed, toStopPasses admitted left, length]
      have room : Utf8.size rest < rounds := by omega
      have answers := (ih _ (follows.along next) room).weaken (Nat.le_succ _)
      change Answers text _ _ (Scan.toStop stops slashes rounds (s.moved x.utf8Size)) at answers
      cases found : scanName stops slashes ⟨offset + x.utf8Size, rest⟩ with
      | error fault =>
        rw [found] at answers
        exact answers
      | ok p =>
        rw [found] at answers
        exact answers

theorem nameMatches {bound : Nat} (enough : (Utf8.encode text).length < bound) :
    Matches text n n (readName stops slashes) (Scan.identifier bound stops slashes) := by
  intro c s follows left
  have room : Utf8.size c.rest < bound := by
    have length := follows.length
    rw [follows.bytes] at length
    omega
  have answers : Answers text (c.rest.length + 1) ((scanName stops slashes c).map fun found => ((), found.2))
      (Scan.toStop stops slashes bound s) := toStopAnswers structural follows room
  unfold readName Scan.identifier
  rw [ExceptT.runBind]
  change Answers text n _ ((Scan.toStop stops slashes bound >>= fun _ => Scan.position >>= fun pos =>
    if pos = s.pos then Scan.refuse .emptyName else Scan.cut s.pos) s)
  rw [ExceptT.runBind]
  cases scanned : scanName stops slashes c with
  | error fault =>
    rw [scanned] at answers
    generalize Scan.toStop stops slashes bound s = halted at answers ⊢
    cases answers with
    | refusal inside slices => exact .refusal inside slices
  | ok p =>
    obtain ⟨name, after⟩ := p
    have taken := ((scanOk structural).mp scanned).taken
    have length := taken.length
    rw [scanned] at answers
    generalize Scan.toStop stops slashes bound s = stopped at answers ⊢
    cases answers with
    | @value _ _ s' follows' _ =>
      change Answers text n _ ((if s'.pos = s.pos then Scan.refuse .emptyName else Scan.cut s.pos) s')
      rw [follows.pos, follows'.pos, taken.2]
      cases name with
      | nil =>
        rw [if_pos (by simp [Utf8.size])]
        exact follows'.refused _
      | cons x name =>
        have size := Char.utf8Size_pos x
        rw [if_neg (by rw [Utf8.size_cons]; omega)]
        obtain ⟨cut, slice⟩ := cutTaken taken follows.place follows'
        have slices := List.forall_mem_cons.mpr ⟨slice, follows'.slices⟩
        rw [List.length_cons] at length
        rw [cut]
        exact .value ⟨follows'.bytes, follows'.pos, follows'.place, slices⟩ (by omega)

end

end SymbolCatalog.Signature
