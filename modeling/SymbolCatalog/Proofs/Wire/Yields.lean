import SymbolCatalog.Proofs.Wire.Values

/-! What a reader can give at all, whatever bytes it is put to. No length that was read reaches 2^64,
so texts, annotations and references to types that were read can be written and read again. -/
namespace SymbolCatalog

theorem Bytes.toNatLEBelow (bytes : Bytes) : toNatLE bytes < 256 ^ bytes.length := by
  induction bytes with
  | nil => exact Nat.one_pos
  | cons b rest ih =>
    have byte := b.toNat_lt
    rw [toNatLE, List.length_cons, Nat.pow_succ]
    omega

namespace Wire
variable {α β : Type}

def Yields (r : Reader α) (good : α → Prop) : Prop :=
  ∀ bytes a rest, r bytes = .ok (a, rest) → good a

theorem yieldsAny (r : Reader α) : Yields r fun _ => True := fun _ _ _ _ => trivial

theorem yieldsPure {a : α} {good : α → Prop} (h : good a) : Yields (pure a : Reader α) good := by
  intro bytes b rest read
  cases read
  exact h

theorem yieldsThrow {e : ReadError} {good : α → Prop} : Yields (throw e : Reader α) good :=
  fun _ _ _ read => nomatch read

theorem boundRead {r : Reader α} {f : α → Reader β} {bytes rest : Bytes} {b : β}
    (h : (r >>= f) bytes = .ok (b, rest)) : ∃ a left, r bytes = .ok (a, left) ∧ f a left = .ok (b, rest) := by
  cases part : r bytes with
  | error e =>
    rw [bind_error part] at h
    cases h
  | ok p => exact ⟨p.1, p.2, rfl, (bind_eq part).symm.trans h⟩

theorem yieldsBind {r : Reader α} {f : α → Reader β} {first : α → Prop} {good : β → Prop}
    (h : Yields r first) (next : ∀ a, first a → Yields (f a) good) : Yields (r >>= f) good := by
  intro bytes b rest read
  obtain ⟨a, left, part, done⟩ := boundRead read
  exact next a (h bytes a left part) left b rest done

theorem yieldsMap {r : Reader α} {f : α → β} {good : β → Prop} (h : Yields r fun a => good (f a)) :
    Yields (f <$> r) good := by
  rw [map_eq_pure_bind]
  exact yieldsBind h fun _ => yieldsPure

theorem readBytesOk {n : Nat} {bytes part rest : Bytes} :
    readBytes n bytes = .ok (part, rest) ↔ part.length = n ∧ bytes = part ++ rest := by
  rw [← Bytes.splitExact_eq_some]
  unfold readBytes
  cases Bytes.splitExact n bytes <;> simp

theorem readBytesLength {n : Nat} : Yields (readBytes n) fun part => part.length = n :=
  fun _ _ _ read => (readBytesOk.1 read).1

theorem readFixedBelow (width : Nat) : Yields (readFixed width) fun n => n < 256 ^ width := by
  refine yieldsMap fun bytes part rest read => ?_
  rw [← readBytesLength bytes part rest read]
  exact part.toNatLEBelow

theorem markerValue {b : UInt8} {n : Nat} : marker b = .value n ↔ b ≤ 250 ∧ n = b.toNat := by
  by_cases low : b ≤ 250
  · rw [marker, if_pos low]
    simp [low, eq_comm]
  · rw [marker, if_neg low]
    refine ⟨fun mark => ?_, fun known => absurd known.1 low⟩
    repeat' split at mark
    all_goals cases mark

theorem readVarintBelow {limit : Nat} (most : limit ≤ 8) (expected : IntWidth) :
    Yields (readVarint limit expected) fun n => n < 2 ^ 64 := by
  refine yieldsBind (yieldsAny readByte) fun b _ => ?_
  cases mark : marker b with
  | value n =>
    obtain ⟨-, rfl⟩ := markerValue.1 mark
    exact yieldsPure (Nat.lt_trans b.toNat_lt (by decide))
  | bytes width =>
    dsimp only
    split
    · next admitted =>
      intro bytes n rest read
      have below := readFixedBelow width bytes n rest read
      have wide : 256 ^ width ≤ 256 ^ 8 := Nat.pow_le_pow_right (by decide) (by omega)
      exact Nat.lt_of_lt_of_le below wide
    · exact yieldsThrow
  | sixteen => exact yieldsThrow
  | reserved => exact yieldsThrow

theorem readManyEach {item : Reader α} {good : α → Prop} (each : Yields item good) (n : Nat)
    (before : List α) (known : ∀ a ∈ before, good a) :
    Yields (readMany item n before) fun items => items.length = before.length + n ∧ ∀ a ∈ items, good a := by
  induction n generalizing before with
  | zero =>
    refine yieldsPure ⟨List.length_reverse, fun a mem => known a (List.mem_reverse.1 mem)⟩
  | succ n ih =>
    refine yieldsBind each fun a fine => ?_
    have more := ih (a :: before) fun b mem => (List.mem_cons.1 mem).elim (fun same => same ▸ fine) (known b)
    rw [List.length_cons, Nat.add_assoc, Nat.add_comm 1] at more
    exact more

theorem readListEach {item : Reader α} {good : α → Prop} (each : Yields item good) :
    Yields (readList item) fun items => items.length < 2 ^ 64 ∧ ∀ a ∈ items, good a := by
  refine yieldsBind (readVarintBelow (Nat.le_refl 8) .length) fun n few => ?_
  intro bytes items rest read
  obtain ⟨length, all⟩ := readManyEach each n [] nofun bytes items rest read
  rw [List.length_nil, Nat.zero_add] at length
  exact ⟨length ▸ few, all⟩

theorem readOptionEach {item : Reader α} {good : α → Prop} (each : Yields item good) :
    Yields (readOption item) fun a? => ∀ a ∈ a?, good a := by
  refine yieldsBind (yieldsAny _) fun there _ => ?_
  cases there with
  | false => exact yieldsPure nofun
  | true => exact yieldsMap fun bytes a rest read b same => Option.some.inj same ▸ each bytes a rest read

theorem readTextShort : Yields readText Short := by
  have length : Yields readTextLength fun n => n < 2 ^ 64 := by
    intro bytes n rest read
    exact readVarintBelow (Nat.le_refl 8) _ bytes n rest read
  refine yieldsBind length fun n few => yieldsBind readBytesLength fun part whole => ?_
  cases decoded : Text.Utf8.decode part with
  | error fault => exact yieldsThrow
  | ok text => exact yieldsPure (Nat.lt_of_le_of_lt (Text.Utf8.decodeSize decoded) (whole ▸ few))

end Wire
end SymbolCatalog
