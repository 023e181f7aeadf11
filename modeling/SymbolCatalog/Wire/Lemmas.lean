import Mathlib.Algebra.Group.Nat.Defs
import SymbolCatalog.Wire.Basic

/-! Values that read back from what is written of them: bytes, truth values, numbers, texts,
optional values, lists and pairs of such values. Texts and lists must have fewer than 2^64 bytes or
elements. -/
namespace SymbolCatalog

theorem Bytes.toNatLE_ofNatLE (width n : Nat) : toNatLE (ofNatLE width n) = n % 256 ^ width := by
  induction width generalizing n with
  | zero => simp [ofNatLE, toNatLE, Nat.mod_one]
  | succ width ih =>
    have byte : (UInt8.ofNat n).toNat = n % 256 := UInt8.toNat_ofNat'
    rw [ofNatLE, toNatLE, ih, byte, Nat.pow_succ, Nat.mul_comm (256 ^ width) 256, Nat.mod_mul]

theorem Bytes.toNatLE_ofNatLE_of_lt {width n : Nat} (h : n < 256 ^ width) : toNatLE (ofNatLE width n) = n :=
  (toNatLE_ofNatLE width n).trans (Nat.mod_eq_of_lt h)

namespace Wire
variable {α β : Type}

theorem bind_eq {r : Reader α} {f : α → Reader β} {bytes rest : Bytes} {a : α}
    (h : r bytes = .ok (a, rest)) : (r >>= f) bytes = f a rest := by
  change (r bytes >>= fun p => f p.1 p.2) = _
  rw [h]
  rfl

theorem bind_error {r : Reader α} {f : α → Reader β} {bytes : Bytes} {e : ReadError}
    (h : r bytes = .error e) : (r >>= f) bytes = .error e := by
  change (r bytes >>= fun p => f p.1 p.2) = _
  rw [h]
  rfl

theorem map_eq {r : Reader α} {f : α → β} {bytes rest : Bytes} {a : α}
    (h : r bytes = .ok (a, rest)) : (f <$> r) bytes = .ok (f a, rest) := by
  change (r bytes >>= fun p => .ok (f p.1, p.2)) = _
  rw [h]
  rfl

theorem readBytes_append (part rest : Bytes) :
    readBytes part.length (part ++ rest) = .ok (part, rest) := by
  rw [readBytes, Bytes.splitExact_eq_some.2 ⟨rfl, rfl⟩]

theorem readFixed_ofNatLE (width : Nat) {n : Nat} (h : n < 256 ^ width) (rest : Bytes) :
    readFixed width (Bytes.ofNatLE width n ++ rest) = .ok (n, rest) := by
  have := readBytes_append (Bytes.ofNatLE width n) rest
  rw [Bytes.length_ofNatLE] at this
  rw [readFixed, map_eq this, Bytes.toNatLE_ofNatLE_of_lt h]

theorem readVarint_cons (limit : Nat) (expected : IntWidth) (b : UInt8) (rest : Bytes) :
    readVarint limit expected (b :: rest) =
      match marker b with
      | .value n => .ok (n, rest)
      | .bytes width =>
        if width ≤ limit then readFixed width rest else .error (.invalidWidth expected .u64)
      | .sixteen => .error (.invalidWidth expected .u128)
      | .reserved => .error (.invalidWidth expected .reserved) := by
  rw [readVarint, bind_eq (rfl : readByte (b :: rest) = .ok (b, rest))]
  cases marker b with
  | bytes width =>
    by_cases h : width ≤ limit
    · simp only [h, if_true]
    · simp only [h, if_false]
      rfl
  | _ => rfl

/-- A number reads back where four bytes are admitted, or eight if it needs them. -/
theorem readVarint_write {limit n : Nat} (h : n < 2 ^ 32 ∧ 4 ≤ limit ∨ n < 2 ^ 64 ∧ 8 ≤ limit)
    (expected : IntWidth) (rest : Bytes) :
    readVarint limit expected (writeVarint n ++ rest) = .ok (n, rest) := by
  unfold writeVarint
  split
  · next small =>
    have byte : (UInt8.ofNat n).toNat = n := by rw [UInt8.toNat_ofNat']; omega
    have low : UInt8.ofNat n ≤ 250 := UInt8.le_iff_toNat_le.2 (byte.symm ▸ small)
    rw [List.singleton_append, readVarint_cons, marker, if_pos low, byte]
  · split
    · next lt =>
      rw [List.cons_append, readVarint_cons, show marker 251 = .bytes 2 from rfl]
      exact (if_pos (by omega)).trans (readFixed_ofNatLE 2 lt rest)
    · split
      · next lt =>
        rw [List.cons_append, readVarint_cons, show marker 252 = .bytes 4 from rfl]
        exact (if_pos (by omega)).trans (readFixed_ofNatLE 4 lt rest)
      · next ge =>
        obtain ⟨lt, -⟩ | ⟨lt, wide⟩ := h
        · exact absurd lt ge
        · rw [List.cons_append, readVarint_cons, show marker 253 = .bytes 8 from rfl]
          exact (if_pos wide).trans (readFixed_ofNatLE 8 lt rest)

theorem readsBack_byte (b : UInt8) : ReadsBack b := fun _ => rfl

theorem readsBack_bool (b : Bool) : ReadsBack b := by cases b <;> exact fun _ => rfl

theorem readsBack_word (n : UInt32) : ReadsBack n := by
  intro rest
  have := readVarint_write (.inl ⟨n.toNat_lt, Nat.le_refl 4⟩) .u32 rest
  exact (map_eq this).trans (by rw [UInt32.ofNat_toNat])

theorem readsBack_pair {α β : Type} [Wire α] [Wire β] {a : α} {b : β} (ha : ReadsBack a)
    (hb : ReadsBack b) : ReadsBack (a, b) := by
  intro rest
  change (read >>= fun a => read >>= fun b => pure (a, b)) (write a ++ write b ++ rest) = _
  rw [List.append_assoc, bind_eq (ha _), bind_eq (hb rest)]
  rfl

theorem readMany_write {item : Reader α} {emit : α → Bytes} {items : List α}
    (h : ∀ a ∈ items, ∀ rest, item (emit a ++ rest) = .ok (a, rest)) (before : List α) (rest : Bytes) :
    readMany item items.length before (items.flatMap emit ++ rest) =
      .ok (before.reverse ++ items, rest) := by
  induction items generalizing before with
  | nil =>
    rw [List.append_nil]
    rfl
  | cons a items ih =>
    rw [List.flatMap_cons, List.append_assoc, List.length_cons, readMany,
      bind_eq (h a (.head _) _), ih fun b hb => h b (.tail _ hb)]
    simp

theorem readList_write {item : Reader α} {emit : α → Bytes} {items : List α}
    (h : ∀ a ∈ items, ∀ rest, item (emit a ++ rest) = .ok (a, rest)) (short : items.length < 2 ^ 64)
    (rest : Bytes) : readList item (writeList emit items ++ rest) = .ok (items, rest) := by
  change (readLength >>= fun n => readMany item n [])
    (writeVarint items.length ++ items.flatMap emit ++ rest) = _
  rw [List.append_assoc]
  exact (bind_eq (readVarint_write (.inr ⟨short, Nat.le_refl 8⟩) .length _)).trans
    (readMany_write h [] rest)

theorem readOption_write {item : Reader α} {emit : α → Bytes} {a? : Option α}
    (h : ∀ a ∈ a?, ∀ rest, item (emit a ++ rest) = .ok (a, rest)) (rest : Bytes) :
    readOption item (writeOption emit a? ++ rest) = .ok (a?, rest) := by
  cases a? with
  | none => rfl
  | some a => exact map_eq (h a rfl rest)

theorem readsBack_option {α : Type} [Wire α] {a? : Option α} (h : ∀ a ∈ a?, ReadsBack a) :
    ReadsBack a? := readOption_write h

theorem readsBack_list {α : Type} [Wire α] {items : List α} (h : ∀ a ∈ items, ReadsBack a)
    (short : items.length < 2 ^ 64) : ReadsBack items := readList_write h short

end Wire
end SymbolCatalog
