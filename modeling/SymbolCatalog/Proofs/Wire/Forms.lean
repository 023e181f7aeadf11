import SymbolCatalog.Proofs.Wire.Yields
import SymbolCatalog.Store.Entries

/-! The bytes that stand for a value, told without a reader. Numbers have several forms, and
dictionaries take their keys in any order. Readers take exactly what has a form. -/
namespace SymbolCatalog
open Wire

namespace Wire
variable {α β : Type}

abbrev Form (α : Type) := Bytes → α → Prop

def numberMarks : List (UInt8 × Nat) := [(251, 2), (252, 4), (253, 8)]

/- A small number is one byte. Otherwise a mark says how many bytes of the number follow it, be they
needed or not. -/
inductive NumberForm : Form Nat where
  | short (b : UInt8) (low : b ≤ 250) : NumberForm [b] b.toNat
  | wide (mark : UInt8) (part : Bytes) (known : (mark, part.length) ∈ numberMarks) :
    NumberForm (mark :: part) (Bytes.toNatLE part)

inductive ManyForm (form : Form α) : Form (List α) where
  | nil : ManyForm form [] []
  | cons {part rest : Bytes} {a : α} {items : List α} (first : form part a) (more : ManyForm form rest items) :
    ManyForm form (part ++ rest) (a :: items)

def ByteForm : Form UInt8 := fun part b => part = [b]

def ListForm (form : Form α) : Form (List α) := fun part items =>
  ∃ front body, part = front ++ body ∧ NumberForm front items.length ∧ ManyForm form body items

def PairForm (first : Form α) (second : Form β) : Form (α × β) := fun part p =>
  ∃ front back, part = front ++ back ∧ first front p.1 ∧ second back p.2

end Wire

def EntriesForm : Form Entries := fun part entries =>
  ∃ pairs, ListForm (PairForm (ListForm ByteForm) (ListForm ByteForm)) part pairs ∧ entries = .ofList pairs

namespace Wire
variable {α β : Type} {r : Reader α} {form : Form α}

def Takes (r : Reader α) (form : Form α) : Prop :=
  ∀ bytes a rest, r bytes = .ok (a, rest) ↔ ∃ part, bytes = part ++ rest ∧ form part a

theorem Takes.whole (takes : Takes r form) {part : Bytes} {a : α} : r part = .ok (a, []) ↔ form part a := by
  rw [takes part a []]
  constructor
  · rintro ⟨whole, rfl, fits⟩
    rwa [List.append_nil]
  · exact fun fits => ⟨part, (List.append_nil part).symm, fits⟩

theorem Takes.congr {form' : Form α} (takes : Takes r form) (same : ∀ part a, form part a ↔ form' part a) :
    Takes r form' := by
  intro bytes a rest
  rw [takes bytes a rest]
  exact exists_congr fun part => and_congr_right fun _ => same part a

theorem takesPure (a : α) : Takes (pure a : Reader α) fun part b => part = [] ∧ b = a := by
  intro bytes b rest
  constructor
  · intro read
    cases read
    exact ⟨[], rfl, rfl, rfl⟩
  · rintro ⟨_, rfl, rfl, rfl⟩
    rfl

theorem takesBind {f : α → Reader β} {next : α → Form β} (first : Takes r form) (second : ∀ a, Takes (f a) (next a)) :
    Takes (r >>= f) fun part b => ∃ a front back, part = front ++ back ∧ form front a ∧ next a back b := by
  intro bytes b rest
  constructor
  · intro read
    obtain ⟨a, middle, taken, left⟩ := boundRead read
    obtain ⟨front, rfl, fits⟩ := (first bytes a middle).1 taken
    obtain ⟨back, rfl, fits'⟩ := (second a middle b rest).1 left
    exact ⟨front ++ back, (List.append_assoc ..).symm, a, front, back, rfl, fits, fits'⟩
  · rintro ⟨_, rfl, a, front, back, rfl, fits, fits'⟩
    rw [List.append_assoc, bind_eq ((first _ a _).2 ⟨front, rfl, fits⟩)]
    exact (second a _ b rest).2 ⟨back, rfl, fits'⟩

theorem takesMap {f : α → β} (takes : Takes r form) : Takes (f <$> r) fun part b => ∃ a, form part a ∧ b = f a := by
  rw [map_eq_pure_bind]
  refine (takesBind takes fun a => takesPure (f a)).congr fun part b => exists_congr fun a => ?_
  constructor
  · rintro ⟨front, _, rfl, fits, rfl, same⟩
    exact ⟨(List.append_nil front).symm ▸ fits, same⟩
  · exact fun ⟨fits, same⟩ => ⟨part, [], (List.append_nil part).symm, fits, rfl, same⟩

theorem takesByte : Takes readByte ByteForm := by
  intro bytes b rest
  constructor
  · intro read
    cases bytes with
    | nil => cases read
    | cons first left =>
      cases read
      exact ⟨[b], rfl, rfl⟩
  · rintro ⟨_, rfl, rfl⟩
    rfl

theorem takesBytes (n : Nat) : Takes (readBytes n) fun part whole => whole.length = n ∧ part = whole := by
  intro bytes whole rest
  rw [readBytesOk]
  constructor
  · exact fun ⟨length, taken⟩ => ⟨whole, taken, length, rfl⟩
  · rintro ⟨_, taken, length, rfl⟩
    exact ⟨length, taken⟩

theorem takesFixed (width : Nat) :
    Takes (readFixed width) fun part n => part.length = width ∧ n = Bytes.toNatLE part := by
  refine Takes.congr (takesMap (takesBytes width)) fun part n => ⟨?_, ?_⟩
  · rintro ⟨_, ⟨length, rfl⟩, number⟩
    exact ⟨length, number⟩
  · exact fun ⟨length, number⟩ => ⟨part, ⟨length, rfl⟩, number⟩

theorem markerBytes {b : UInt8} {width : Nat} : marker b = .bytes width ↔ (b, width) ∈ numberMarks := by
  constructor
  · intro mark
    unfold marker at mark
    repeat' split at mark
    all_goals cases mark
    all_goals
      subst_vars
      decide
  · intro known
    simp only [numberMarks, List.mem_cons, Prod.mk.injEq, List.not_mem_nil, or_false] at known
    obtain ⟨rfl, rfl⟩ | ⟨rfl, rfl⟩ | ⟨rfl, rfl⟩ := known <;> rfl

theorem takesLength : Takes readLength NumberForm := by
  intro bytes n rest
  constructor
  · intro read
    cases bytes with
    | nil => cases read
    | cons b left =>
      rw [readLength, readVarint_cons] at read
      cases mark : marker b with
      | value small =>
        rw [mark] at read
        cases read
        obtain ⟨low, rfl⟩ := markerValue.1 mark
        exact ⟨[b], rfl, .short b low⟩
      | bytes width =>
        rw [mark] at read
        dsimp only at read
        split at read
        · obtain ⟨part, rfl, rfl, rfl⟩ := (takesFixed width left n rest).1 read
          exact ⟨b :: part, rfl, .wide b part (markerBytes.1 mark)⟩
        · cases read
      | sixteen =>
        rw [mark] at read
        cases read
      | reserved =>
        rw [mark] at read
        cases read
  · rintro ⟨_, rfl, form⟩
    cases form with
    | short b low => rw [readLength, List.singleton_append, readVarint_cons, markerValue.2 ⟨low, rfl⟩]
    | wide mark part known =>
      have admitted : part.length ≤ 8 := by
        simp only [numberMarks, List.mem_cons, Prod.mk.injEq, List.not_mem_nil, or_false] at known
        omega
      rw [readLength, List.cons_append, readVarint_cons, markerBytes.2 known]
      exact (if_pos admitted).trans ((takesFixed _ _ _ _).2 ⟨part, rfl, rfl, rfl⟩)

theorem takesMany {item : Reader α} (each : Takes item form) (n : Nat) (before : List α) :
    Takes (readMany item n before) fun part items =>
      ∃ more, items = before.reverse ++ more ∧ more.length = n ∧ ManyForm form part more := by
  induction n generalizing before with
  | zero =>
    refine (takesPure before.reverse).congr fun part items => ⟨?_, ?_⟩
    · rintro ⟨rfl, rfl⟩
      exact ⟨[], (List.append_nil _).symm, rfl, .nil⟩
    · rintro ⟨_, rfl, none, many⟩
      cases List.eq_nil_of_length_eq_zero none
      cases many
      exact ⟨rfl, List.append_nil _⟩
  | succ n ih =>
    refine (takesBind each fun a => ih (a :: before)).congr fun part items => ⟨?_, ?_⟩
    · rintro ⟨a, front, back, rfl, fits, more, rfl, rfl, many⟩
      exact ⟨a :: more, by simp, rfl, .cons fits many⟩
    · rintro ⟨_, rfl, length, many⟩
      cases many with
      | nil => cases length
      | cons first many =>
        exact ⟨_, _, _, rfl, first, _, by simp, Nat.succ.inj length, many⟩

theorem takesList {item : Reader α} (each : Takes item form) : Takes (readList item) (ListForm form) := by
  refine (takesBind takesLength fun n => takesMany each n []).congr fun part items => ⟨?_, ?_⟩
  · rintro ⟨_, front, back, rfl, number, _, rfl, rfl, many⟩
    exact ⟨front, back, rfl, number, many⟩
  · rintro ⟨front, back, rfl, number, many⟩
    exact ⟨_, front, back, rfl, number, items, rfl, rfl, many⟩

theorem takesPair [Wire α] [Wire β] {second : Form β} (first : Takes (read : Reader α) form)
    (next : Takes (read : Reader β) second) : Takes (read : Reader (α × β)) (PairForm form second) := by
  refine Takes.congr (takesBind first fun a => takesMap next) fun part p => ⟨?_, ?_⟩
  · rintro ⟨a, front, back, rfl, fits, b, fits', rfl⟩
    exact ⟨front, back, rfl, fits, fits'⟩
  · rintro ⟨front, back, rfl, fits, fits'⟩
    exact ⟨p.1, front, back, rfl, fits, p.2, fits', rfl⟩

theorem takesEntries : Takes (read : Reader Entries) EntriesForm :=
  takesMap (takesList (takesPair (takesList takesByte) (takesList takesByte)))

end Wire
end SymbolCatalog
