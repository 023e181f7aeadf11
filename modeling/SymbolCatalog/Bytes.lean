/-! Byte strings: little-endian words, the test that one string starts with another, and reading an
exact number of bytes off the front. Bytes are ordered lexicographically, as `List` orders them. -/
namespace SymbolCatalog

abbrev Bytes := List UInt8

namespace Bytes

def ofNatLE : (width : Nat) → Nat → Bytes
  | 0, _ => []
  | width + 1, n => UInt8.ofNat n :: ofNatLE width (n / 256)

def toNatLE : Bytes → Nat
  | [] => 0
  | b :: rest => b.toNat + 256 * toNatLE rest

def splitExact (n : Nat) (bytes : Bytes) : Option (Bytes × Bytes) :=
  go n [] bytes
where
  go : Nat → Bytes → Bytes → Option (Bytes × Bytes)
    | 0, taken, rest => some (taken.reverse, rest)
    | _ + 1, _, [] => none
    | n + 1, taken, b :: rest => go n (b :: taken) rest

def startsWith (bytes start : Bytes) : Bool := start.isPrefixOf bytes

@[simp] theorem length_ofNatLE (width n : Nat) : (ofNatLE width n).length = width := by
  induction width generalizing n with
  | zero => rfl
  | succ width ih => simp [ofNatLE, ih]

theorem splitExact_go_eq_some {n : Nat} {taken bytes x y : Bytes} :
    splitExact.go n taken bytes = some (x, y) ↔
      ∃ part, part.length = n ∧ bytes = part ++ y ∧ x = taken.reverse ++ part := by
  induction n generalizing taken bytes with
  | zero =>
    simp only [splitExact.go, Option.some.injEq, Prod.mk.injEq, List.length_eq_zero_iff]
    constructor
    · rintro ⟨rfl, rfl⟩; exact ⟨[], rfl, rfl, by simp⟩
    · rintro ⟨_, rfl, h, hx⟩; exact ⟨by simpa using hx.symm, by simpa using h⟩
  | succ n ih =>
    cases bytes with
    | nil =>
      refine ⟨fun h => (by cases h), ?_⟩
      rintro ⟨part, h, hb, -⟩
      obtain ⟨rfl, -⟩ := List.append_eq_nil_iff.1 hb.symm
      cases h
    | cons b rest =>
      rw [splitExact.go, ih]
      constructor
      · rintro ⟨part, h, hr, hx⟩; exact ⟨b :: part, by simp [h], by simp [hr], by simp [hx]⟩
      · rintro ⟨part, h, hr, hx⟩
        cases part with
        | nil => simp at h
        | cons c part =>
          simp only [List.cons_append, List.cons.injEq] at hr
          exact ⟨part, by simpa using h, hr.2, by simp [hx, hr.1]⟩

theorem splitExact_eq_some {n : Nat} {bytes x y : Bytes} :
    splitExact n bytes = some (x, y) ↔ x.length = n ∧ bytes = x ++ y := by
  rw [splitExact, splitExact_go_eq_some]
  constructor
  · rintro ⟨part, h, hb, rfl⟩; exact ⟨by simpa using h, by simpa using hb⟩
  · rintro ⟨h, hb⟩; exact ⟨x, h, hb, rfl⟩

end Bytes
end SymbolCatalog
