import SymbolCatalog.Proofs.Text.Utf8

/-! Where the characters of a text begin among its bytes. No byte of a character of several bytes is ASCII,
and a single byte tells whether a character begins there. -/
namespace SymbolCatalog.Text.Utf8
variable {text : String}

theorem longBytes {x : Char} (long : 0x7f < x.val.toNat) : ∀ b ∈ String.utf8EncodeChar x, 128 ≤ b.toNat := by
  unfold String.utf8EncodeChar
  dsimp only
  rw [if_neg (by omega)]
  split
  · simp only [List.forall_mem_cons, List.not_mem_nil, false_implies, implies_true, and_true]
    rw [leadOf (by omega), leadOf (by omega)]
    omega
  · split
    · simp only [List.forall_mem_cons, List.not_mem_nil, false_implies, implies_true, and_true]
      rw [leadOf (by omega), leadOf (by omega), leadOf (by omega)]
      omega
    · simp only [List.forall_mem_cons, List.not_mem_nil, false_implies, implies_true, and_true]
      rw [leadOf (by omega), leadOf (by omega), leadOf (by omega), leadOf (by omega)]
      omega

theorem encodeHead (x : Char) : ∃ tail, String.utf8EncodeChar x = lead x :: tail := by
  unfold lead
  cases bytes : String.utf8EncodeChar x with
  | nil =>
    have length := String.length_utf8EncodeChar x
    have size := Char.utf8Size_pos x
    rw [bytes, List.length_nil] at length
    omega
  | cons b tail => exact ⟨tail, rfl⟩

theorem sizeAscii {x : Char} (ascii : x.val.toNat < 128) : x.utf8Size = 1 := by
  rw [← String.length_utf8EncodeChar]
  unfold String.utf8EncodeChar
  dsimp only
  rw [if_pos (by omega), List.length_singleton]

theorem leadBegins (x : Char) : isContinuation (lead x) = false := by
  unfold lead
  rcases encodedCases x with ⟨b, bytes, one, _⟩ | ⟨b, tail, bytes, long, read⟩
  · rw [bytes, List.headD_cons]
    unfold isContinuation
    simp only [Bool.and_eq_false_iff, decide_eq_false_iff_not]
    exact .inl (by simpa using one)
  · rw [bytes, List.headD_cons, ← Bool.not_eq_true]
    intro follows
    have range : 0x80 ≤ b.toNat ∧ b.toNat ≤ 0xBF := by
      simpa [isContinuation, UInt8.le_iff_toNat_le] using follows
    have taken := read []
    unfold front at taken
    simp only [UInt8.le_iff_toNat_le, UInt8.reduceToNat] at taken
    rw [if_neg (by simp; omega), if_neg (by simp; omega), if_neg (by simp; omega)] at taken
    cases taken

theorem tailContinues {x : Char} : ∀ b ∈ (String.utf8EncodeChar x).tail, isContinuation b = true := by
  unfold String.utf8EncodeChar
  dsimp only
  split
  · simp
  · split
    · simp only [List.tail_cons, List.forall_mem_singleton]
      exact (continuationOf _).1
    · split
      · simp only [List.tail_cons, List.forall_mem_cons, List.not_mem_nil, false_implies, implies_true, and_true]
        exact ⟨(continuationOf _).1, (continuationOf _).1⟩
      · simp only [List.tail_cons, List.forall_mem_cons, List.not_mem_nil, false_implies, implies_true, and_true]
        exact ⟨(continuationOf _).1, (continuationOf _).1, (continuationOf _).1⟩

theorem boundaryOfByte {chars : List Char} {i : Nat} {b : UInt8} (byte : (encodeChars chars)[i]? = some b)
    (begins : isContinuation b = false) : ∃ before after, chars = before ++ after ∧ i = size before := by
  induction chars generalizing i with
  | nil => cases byte
  | cons x chars ih =>
    cases i with
    | zero => exact ⟨[], x :: chars, rfl, rfl⟩
    | succ i =>
      change (String.utf8EncodeChar x ++ encodeChars chars)[i + 1]? = some b at byte
      have length := String.length_utf8EncodeChar x
      by_cases within : i + 1 < x.utf8Size
      · rw [List.getElem?_append_left (by omega), ← List.getElem?_tail] at byte
        rw [tailContinues b (List.mem_of_getElem? byte)] at begins
        cases begins
      · rw [List.getElem?_append_right (by omega), length] at byte
        obtain ⟨before, after, split, size⟩ := ih byte
        refine ⟨x :: before, after, by rw [split, List.cons_append], ?_⟩
        rw [size_cons]
        omega

/-- A position in the bytes of a text at which a character begins, or the text ends. -/
def Boundary (text : String) (i : Nat) : Prop :=
  ∃ before after, text.toList = before ++ after ∧ i = size before

theorem encodeLength (text : String) : (encode text).length = size text.toList :=
  length_encodeChars _

theorem charsFit (text : String) : text.toList.length ≤ (encode text).length := by
  rw [encodeLength]
  induction text.toList with
  | nil => simp
  | cons x chars ih =>
    have size := Char.utf8Size_pos x
    rw [List.length_cons, size_cons]
    omega

theorem Boundary.inside {i : Nat} (h : Boundary text i) : i ≤ (encode text).length := by
  obtain ⟨before, after, split, size⟩ := h
  rw [encodeLength, split, size_append, size]
  exact Nat.le_add_right _ _

end SymbolCatalog.Text.Utf8
