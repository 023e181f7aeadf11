import SymbolCatalog.Text.Utf8

/-! Every text is what its bytes decode to. A character is taken by its size; the reader tests the
second byte for overlong forms and for surrogates, and the value of a character is neither. -/
namespace SymbolCatalog.Text.Utf8

theorem continuationOf (n : Nat) :
    isContinuation (UInt8.ofNat (n % 64 + 0x80)) = true ∧ payload (UInt8.ofNat (n % 64 + 0x80)) = n % 64 := by
  have byte : (UInt8.ofNat (n % 64 + 0x80)).toNat = n % 64 + 0x80 := by
    rw [UInt8.toNat_ofNat']
    omega
  unfold isContinuation payload
  simp only [Bool.and_eq_true, decide_eq_true_eq, UInt8.le_iff_toNat_le, byte, UInt8.reduceToNat]
  omega

theorem ofNatVal (c : Char) : Char.ofNat c.val.toNat = c := Char.ofNat_toNat c

theorem leadOf {n : Nat} (h : n < 256) : (UInt8.ofNat n).toNat = n := by
  rw [UInt8.toNat_ofNat']
  omega

theorem frontOfTwo (c : Char) (low : 0x7f < c.val.toNat) (high : c.val.toNat ≤ 0x7ff) (rest : Bytes) :
    front (UInt8.ofNat (c.val.toNat / 64 % 32 + 0xc0)) (UInt8.ofNat (c.val.toNat % 64 + 0x80) :: rest) =
      .char c rest := by
  obtain ⟨follows, bits⟩ := continuationOf c.val.toNat
  have lead := leadOf (show c.val.toNat / 64 % 32 + 0xc0 < 256 by omega)
  have two : 0xC2 ≤ UInt8.ofNat (c.val.toNat / 64 % 32 + 0xc0) ∧
      UInt8.ofNat (c.val.toNat / 64 % 32 + 0xc0) ≤ 0xDF := by
    simp only [UInt8.le_iff_toNat_le, lead, UInt8.reduceToNat]
    omega
  have value : (c.val.toNat / 64 % 32 + 0xc0) % 32 * 64 + c.val.toNat % 64 = c.val.toNat := by omega
  unfold front
  simp only [two, follows, bits, lead, value, ofNatVal, decide_true, Bool.and_self, if_true]

theorem secondOfThreeOf (c : Char) (low : 0x7ff < c.val.toNat) (high : c.val.toNat ≤ 0xffff) :
    secondOfThree (UInt8.ofNat (c.val.toNat / 4096 % 16 + 0xe0))
      (UInt8.ofNat (c.val.toNat / 64 % 64 + 0x80)) = true := by
  have lead := leadOf (show c.val.toNat / 4096 % 16 + 0xe0 < 256 by omega)
  have second := leadOf (show c.val.toNat / 64 % 64 + 0x80 < 256 by omega)
  have valid := c.valid
  simp only [UInt32.isValidChar, Nat.isValidChar] at valid
  unfold secondOfThree isContinuation
  simp only [← UInt8.toNat_inj, UInt8.le_iff_toNat_le, lead, second, UInt8.reduceToNat]
  split
  · simp only [Bool.and_eq_true, decide_eq_true_eq]
    omega
  · split
    · simp only [Bool.and_eq_true, decide_eq_true_eq]
      omega
    · simp only [Bool.and_eq_true, decide_eq_true_eq]
      omega

theorem secondOfFourOf (c : Char) (low : 0xffff < c.val.toNat) :
    secondOfFour (UInt8.ofNat (c.val.toNat / 262144 % 8 + 0xf0))
      (UInt8.ofNat (c.val.toNat / 4096 % 64 + 0x80)) = true := by
  have lead := leadOf (show c.val.toNat / 262144 % 8 + 0xf0 < 256 by omega)
  have second := leadOf (show c.val.toNat / 4096 % 64 + 0x80 < 256 by omega)
  have valid := c.valid
  simp only [UInt32.isValidChar, Nat.isValidChar] at valid
  unfold secondOfFour isContinuation
  simp only [← UInt8.toNat_inj, UInt8.le_iff_toNat_le, lead, second, UInt8.reduceToNat]
  split
  · simp only [Bool.and_eq_true, decide_eq_true_eq]
    omega
  · split
    · simp only [Bool.and_eq_true, decide_eq_true_eq]
      omega
    · simp only [Bool.and_eq_true, decide_eq_true_eq]
      omega

theorem frontOfThree (c : Char) (low : 0x7ff < c.val.toNat) (high : c.val.toNat ≤ 0xffff) (rest : Bytes) :
    front (UInt8.ofNat (c.val.toNat / 4096 % 16 + 0xe0))
      (UInt8.ofNat (c.val.toNat / 64 % 64 + 0x80) :: UInt8.ofNat (c.val.toNat % 64 + 0x80) :: rest) =
      .char c rest := by
  have second := secondOfThreeOf c low high
  have bits := (continuationOf (c.val.toNat / 64)).2
  obtain ⟨third, bits'⟩ := continuationOf c.val.toNat
  have lead := leadOf (show c.val.toNat / 4096 % 16 + 0xe0 < 256 by omega)
  have two : ¬ UInt8.ofNat (c.val.toNat / 4096 % 16 + 0xe0) ≤ 0xDF := by
    simp only [UInt8.le_iff_toNat_le, lead, UInt8.reduceToNat]
    omega
  have three : 0xE0 ≤ UInt8.ofNat (c.val.toNat / 4096 % 16 + 0xe0) ∧
      UInt8.ofNat (c.val.toNat / 4096 % 16 + 0xe0) ≤ 0xEF := by
    simp only [UInt8.le_iff_toNat_le, lead, UInt8.reduceToNat]
    omega
  have value : ((c.val.toNat / 4096 % 16 + 0xe0) % 16 * 64 + c.val.toNat / 64 % 64) * 64 +
      c.val.toNat % 64 = c.val.toNat := by omega
  unfold front
  simp only [two, three, second, third, bits, bits', lead, value, ofNatVal, decide_true, decide_false,
    Bool.and_self, Bool.and_false, Bool.not_true, Bool.false_eq_true, if_true, if_false]

theorem frontOfFour (c : Char) (low : 0xffff < c.val.toNat) (rest : Bytes) :
    front (UInt8.ofNat (c.val.toNat / 262144 % 8 + 0xf0))
      (UInt8.ofNat (c.val.toNat / 4096 % 64 + 0x80) :: UInt8.ofNat (c.val.toNat / 64 % 64 + 0x80) ::
        UInt8.ofNat (c.val.toNat % 64 + 0x80) :: rest) = .char c rest := by
  have second := secondOfFourOf c low
  have bits := (continuationOf (c.val.toNat / 4096)).2
  obtain ⟨third, bits'⟩ := continuationOf (c.val.toNat / 64)
  obtain ⟨fourth, bits''⟩ := continuationOf c.val.toNat
  have valid := c.valid
  simp only [UInt32.isValidChar, Nat.isValidChar] at valid
  have lead := leadOf (show c.val.toNat / 262144 % 8 + 0xf0 < 256 by omega)
  have three : ¬ UInt8.ofNat (c.val.toNat / 262144 % 8 + 0xf0) ≤ 0xDF ∧
      ¬ UInt8.ofNat (c.val.toNat / 262144 % 8 + 0xf0) ≤ 0xEF := by
    simp only [UInt8.le_iff_toNat_le, lead, UInt8.reduceToNat]
    omega
  have four : 0xF0 ≤ UInt8.ofNat (c.val.toNat / 262144 % 8 + 0xf0) ∧
      UInt8.ofNat (c.val.toNat / 262144 % 8 + 0xf0) ≤ 0xF4 := by
    simp only [UInt8.le_iff_toNat_le, lead, UInt8.reduceToNat]
    omega
  have value : (((c.val.toNat / 262144 % 8 + 0xf0) % 8 * 64 + c.val.toNat / 4096 % 64) * 64 +
      c.val.toNat / 64 % 64) * 64 + c.val.toNat % 64 = c.val.toNat := by omega
  unfold front
  simp only [three, four, second, third, fourth, bits, bits', bits'', lead, value, ofNatVal, decide_true,
    decide_false, Bool.and_self, Bool.and_false, Bool.not_true, Bool.false_eq_true, if_true, if_false]

theorem encodedCases (c : Char) :
    (∃ b, String.utf8EncodeChar c = [b] ∧ b < 0x80 ∧ Char.ofNat b.toNat = c) ∨
    ∃ b tail, String.utf8EncodeChar c = b :: tail ∧ ¬ b < 0x80 ∧
      ∀ rest, front b (tail ++ rest) = .char c rest := by
  unfold String.utf8EncodeChar
  dsimp only
  split
  · next one =>
    have byte := leadOf (show c.val.toNat < 256 by omega)
    refine .inl ⟨_, rfl, ?_, ?_⟩
    · simp only [UInt8.lt_iff_toNat_lt, byte, UInt8.reduceToNat]
      omega
    · rw [byte, ofNatVal]
  · next one =>
    right
    split
    · next two =>
      have lead := leadOf (show c.val.toNat / 64 % 32 + 0xc0 < 256 by omega)
      refine ⟨_, _, rfl, ?_, fun rest => frontOfTwo c (by omega) two rest⟩
      simp only [UInt8.lt_iff_toNat_lt, lead, UInt8.reduceToNat]
      omega
    · next two =>
      split
      · next three =>
        have lead := leadOf (show c.val.toNat / 4096 % 16 + 0xe0 < 256 by omega)
        refine ⟨_, _, rfl, ?_, fun rest => frontOfThree c (by omega) three rest⟩
        simp only [UInt8.lt_iff_toNat_lt, lead, UInt8.reduceToNat]
        omega
      · next three =>
        have lead := leadOf (show c.val.toNat / 262144 % 8 + 0xf0 < 256 by omega)
        refine ⟨_, _, rfl, ?_, fun rest => frontOfFour c (by omega) rest⟩
        simp only [UInt8.lt_iff_toNat_lt, lead, UInt8.reduceToNat]
        omega

theorem decodeFromEncoded (cs before : List Char) (pos : Nat) :
    decodeFrom pos before (encodeChars cs) = .ok (before.reverse ++ cs) := by
  induction cs generalizing before pos with
  | nil => simp [encodeChars, decodeFrom]
  | cons c cs ih =>
    have split : encodeChars (c :: cs) = String.utf8EncodeChar c ++ encodeChars cs := rfl
    rw [split]
    rcases encodedCases c with ⟨b, bytes, one, value⟩ | ⟨b, tail, bytes, more, read⟩
    · rw [bytes, List.singleton_append, decodeFrom, if_pos one, ih, value]
      simp
    · rw [bytes, List.cons_append, decodeFrom, if_neg more]
      split
      · next d rest front =>
        rw [read] at front
        cases front
        rw [ih]
        simp
      · next n front =>
        rw [read] at front
        cases front
      · next front =>
        rw [read] at front
        cases front

theorem decodeEncode (text : String) : decode (encode text) = .ok text := by
  unfold decode encode
  rw [decodeFromEncoded]
  simp [Except.map]

/-! A text that was read is not longer than its bytes. -/

theorem sizeAtMost {n : Nat} : (n < 0x80 → (Char.ofNat n).utf8Size ≤ 1) ∧
    (n < 0x800 → (Char.ofNat n).utf8Size ≤ 2) ∧ (n < 0x10000 → (Char.ofNat n).utf8Size ≤ 3) := by
  have value : (Char.ofNat n).val.toNat ≤ n := by
    by_cases valid : n.isValidChar
    · rw [Char.ofNat, dif_pos valid]
      exact Nat.le_refl n
    · rw [Char.ofNat, dif_neg valid]
      exact Nat.zero_le n
  have one : (UInt32.ofNatLT 0x7F (by decide)).toNat = 0x7F := rfl
  have two : (UInt32.ofNatLT 0x7FF (by decide)).toNat = 0x7FF := rfl
  have three : (UInt32.ofNatLT 0xFFFF (by decide)).toNat = 0xFFFF := rfl
  unfold Char.utf8Size
  simp only [UInt32.le_iff_toNat_le, one, two, three]
  grind

theorem payloadBelow (b : UInt8) : payload b < 64 := Nat.mod_lt _ (by decide)

theorem frontSize {lead : UInt8} {rest tail : Bytes} {c : Char} (read : front lead rest = .char c tail) :
    c.utf8Size + tail.length ≤ rest.length + 1 := by
  unfold front at read
  repeat' split at read
  all_goals first
    | contradiction
    | cases read
  · next b follows =>
    have bits := payloadBelow b
    have size := sizeAtMost.2.1 (show lead.toNat % 32 * 64 + payload b < 0x800 by omega)
    simp only [List.length_cons]
    omega
  · next b _ _ c follows =>
    have bits := payloadBelow b
    have bits' := payloadBelow c
    have size := sizeAtMost.2.2 (show (lead.toNat % 16 * 64 + payload b) * 64 + payload c < 0x10000 by omega)
    simp only [List.length_cons]
    omega
  · simp only [List.length_cons]
    exact Nat.le_trans (Nat.add_le_add_right (Char.utf8Size_le_four _) _) (by omega)

theorem sizeReverse (cs : List Char) : size cs.reverse = size cs := by
  induction cs with
  | nil => rfl
  | cons c cs ih =>
    rw [List.reverse_cons, size_append, ih, size_cons, size_cons, Nat.add_comm]
    rfl

theorem decodeFromSize {bytes : Bytes} {pos : Nat} {before cs : List Char}
    (read : decodeFrom pos before bytes = .ok cs) : size cs ≤ size before + bytes.length := by
  induction pos, before, bytes using decodeFrom.induct generalizing cs with
  | case1 pos before =>
    rw [decodeFrom] at read
    cases read
    rw [sizeReverse]
    exact Nat.le_refl _
  | case2 pos before b rest one ih =>
    rw [decodeFrom, if_pos one] at read
    have more := ih read
    have small := sizeAtMost.1 (UInt8.lt_iff_toNat_lt.1 one)
    rw [size_cons] at more
    simp only [List.length_cons]
    omega
  | case3 pos before b rest more c tail front _ ih =>
    rw [decodeFrom, if_neg more] at read
    split at read
    · next front' =>
      rw [front] at front'
      cases front'
      have all := ih read
      have size := frontSize front
      rw [size_cons] at all
      simp only [List.length_cons]
      omega
    · cases read
    · cases read
  | case4 pos before b rest more n front =>
    rw [decodeFrom, if_neg more] at read
    split at read <;> simp_all
  | case5 pos before b rest more front =>
    rw [decodeFrom, if_neg more] at read
    split at read <;> simp_all

theorem decodeSize {bytes : Bytes} {text : String} (read : decode bytes = .ok text) :
    (encode text).length ≤ bytes.length := by
  unfold decode at read
  cases found : decodeFrom 0 [] bytes with
  | error e =>
    rw [found] at read
    cases read
  | ok cs =>
    rw [found] at read
    cases read
    have all := decodeFromSize found
    rw [encode, length_encodeChars, String.toList_ofList]
    exact Nat.le_trans all (Nat.le_of_eq (Nat.zero_add _))

end SymbolCatalog.Text.Utf8
