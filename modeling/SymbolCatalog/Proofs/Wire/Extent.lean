import SymbolCatalog.Proofs.Wire.Yields

/-! How many bytes a reader takes. The bytes that it takes say so themselves: they are read alike
whatever follows them, and wherever they are cut off the reader asks for more. -/
namespace SymbolCatalog.Wire
variable {α β : Type}

/- The bytes are read as the value whatever follows, and cut off anywhere they are short of some
bytes. -/
structure Spells (r : Reader α) (part : Bytes) (a : α) : Prop where
  whole : ∀ more, r (part ++ more) = .ok (a, more)
  cut : ∀ front, front <+: part → front ≠ part → ∃ missing, r front = .error (.unexpectedEnd missing)

def Exact (r : Reader α) : Prop :=
  ∀ bytes a rest, r bytes = .ok (a, rest) → ∃ part, bytes = part ++ rest ∧ Spells r part a

section Taken
variable {r : Reader α} {part rest : Bytes} {a : α}

theorem Spells.reads (h : Spells r part a) : r part = .ok (a, []) := by
  have read := h.whole []
  rwa [List.append_nil] at read

theorem Exact.spells (exact : Exact r) (read : r part = .ok (a, [])) : Spells r part a := by
  obtain ⟨whole, taken, spelled⟩ := exact part a [] read
  rw [List.append_nil] at taken
  exact taken ▸ spelled

theorem Exact.shorter (exact : Exact r) {bytes : Bytes} (read : r bytes = .ok (a, rest)) :
    rest.length ≤ bytes.length := by
  obtain ⟨part, rfl, -⟩ := exact bytes a rest read
  rw [List.length_append]
  exact Nat.le_add_left _ _

end Taken

/-! Readers put together. -/

theorem exactPure (a : α) : Exact (pure a : Reader α) := by
  intro bytes b rest read
  cases read
  refine ⟨[], rfl, fun more => rfl, fun front among proper => ?_⟩
  exact absurd (List.prefix_nil.1 among) proper

theorem exactThrow (e : ReadError) : Exact (throw e : Reader α) := fun _ _ _ read => nomatch read

theorem cutSides {front part next : Bytes} (among : front <+: part ++ next) :
    (front <+: part ∧ front ≠ part) ∨ ∃ left, front = part ++ left ∧ left <+: next := by
  have beyond : part <+: front → ∃ left, front = part ++ left ∧ left <+: next := by
    rintro ⟨left, rfl⟩
    exact ⟨left, rfl, (List.prefix_append_right_inj part).1 among⟩
  rcases List.prefix_or_prefix_of_prefix among (List.prefix_append part next) with within | longer
  · by_cases all : front = part
    · exact .inr (beyond (all ▸ List.prefix_refl _))
    · exact .inl ⟨within, all⟩
  · exact .inr (beyond longer)

theorem spellsBind {r : Reader α} {f : α → Reader β} {part next : Bytes} {a : α} {b : β}
    (first : Spells r part a) (second : Spells (f a) next b) : Spells (r >>= f) (part ++ next) b where
  whole more := by rw [List.append_assoc, bind_eq (first.whole _), second.whole more]
  cut front among proper := by
    rcases cutSides among with ⟨within, short⟩ | ⟨left, rfl, within⟩
    · obtain ⟨missing, error⟩ := first.cut front within short
      exact ⟨missing, bind_error error⟩
    · obtain ⟨missing, error⟩ := second.cut left within fun same => proper (same ▸ rfl)
      exact ⟨missing, by rw [bind_eq (first.whole left), error]⟩

theorem exactBind {r : Reader α} {f : α → Reader β} (first : Exact r) (next : ∀ a, Exact (f a)) :
    Exact (r >>= f) := by
  intro bytes b rest read
  obtain ⟨a, middle, taken, left⟩ := boundRead read
  obtain ⟨part, rfl, spelled⟩ := first bytes a middle taken
  obtain ⟨part', rfl, spelled'⟩ := next a middle b rest left
  exact ⟨part ++ part', (List.append_assoc ..).symm, spellsBind spelled spelled'⟩

theorem exactMap {r : Reader α} {f : α → β} (h : Exact r) : Exact (f <$> r) := by
  rw [map_eq_pure_bind]
  exact exactBind h fun a => exactPure (f a)

/-! The readers of the single types. -/

theorem exactByte : Exact readByte := by
  intro bytes b rest read
  cases bytes with
  | nil => cases read
  | cons first left =>
    cases read
    refine ⟨[b], rfl, fun more => rfl, fun front among proper => ⟨1, ?_⟩⟩
    cases front with
    | nil => rfl
    | cons c front => exact absurd (among.eq_of_length_le (Nat.succ_le_succ (Nat.zero_le _))) proper

theorem exactBytes (n : Nat) : Exact (readBytes n) := by
  intro bytes part rest read
  obtain ⟨rfl, taken⟩ := readBytesOk.1 read
  refine ⟨part, taken, readBytes_append part, fun front among proper => ⟨part.length - front.length, ?_⟩⟩
  have none : Bytes.splitExact part.length front = none := by
    refine Option.eq_none_iff_forall_ne_some.2 fun p split => ?_
    obtain ⟨length, whole⟩ := Bytes.splitExact_eq_some.1 split
    refine proper (among.eq_of_length_le ?_)
    rw [whole, List.length_append]
    omega
  rw [readBytes, none]

theorem exactFixed (width : Nat) : Exact (readFixed width) := exactMap (exactBytes width)

theorem exactVarint (limit : Nat) (expected : IntWidth) : Exact (readVarint limit expected) := by
  refine exactBind exactByte fun b => ?_
  cases marker b with
  | value n => exact exactPure n
  | bytes width =>
    dsimp only
    split
    · exact exactFixed width
    · exact exactThrow _
  | sixteen => exact exactThrow _
  | reserved => exact exactThrow _

theorem varintAsked {limit : Nat} {expected : IntWidth} {bytes : Bytes}
    (admitted : ∀ found, readVarint limit expected bytes ≠ .error (.invalidWidth expected found)) (other : IntWidth) :
    readVarint limit other bytes = readVarint limit expected bytes := by
  cases bytes with
  | nil => rfl
  | cons b rest =>
    rw [readVarint_cons] at admitted ⊢
    rw [readVarint_cons]
    cases mark : marker b with
    | value n => rfl
    | bytes width =>
      rw [mark] at admitted
      dsimp only at admitted ⊢
      split
      · rfl
      · next wide => exact absurd (if_neg wide) (admitted .u64)
    | sixteen =>
      rw [mark] at admitted
      exact absurd rfl (admitted .u128)
    | reserved =>
      rw [mark] at admitted
      exact absurd rfl (admitted .reserved)

theorem exactTextLength : Exact readTextLength := by
  intro bytes n rest read
  obtain ⟨part, taken, spelled⟩ := exactVarint 8 _ bytes n rest read
  refine ⟨part, taken, fun more => ?_, fun front among proper => ?_⟩
  · have whole := spelled.whole more
    rw [readTextLength, varintAsked (fun found refused => nomatch whole.symm.trans refused), whole]
  · obtain ⟨missing, short⟩ := spelled.cut front among proper
    refine ⟨missing, ?_⟩
    rw [readTextLength, varintAsked (fun found refused => nomatch short.symm.trans refused), short]

theorem exactText : Exact readText := by
  refine exactBind exactTextLength fun n => exactBind (exactBytes n) fun part => ?_
  cases Text.Utf8.decode part with
  | ok text => exact exactPure text
  | error fault => exact exactThrow _

theorem exactTag (refuse : UInt8 → ReadError) : Exact (readTag refuse) := by
  refine exactBind exactByte fun b => ?_
  split
  · exact exactPure false
  · exact exactPure true
  · exact exactThrow _

theorem exactOption {item : Reader α} (each : Exact item) : Exact (readOption item) := by
  refine exactBind (exactTag _) fun there => ?_
  cases there with
  | false => exact exactPure none
  | true => exact exactMap each

theorem exactMany {item : Reader α} (each : Exact item) (n : Nat) (before : List α) :
    Exact (readMany item n before) := by
  induction n generalizing before with
  | zero => exact exactPure before.reverse
  | succ n ih => exact exactBind each fun a => ih (a :: before)

theorem exactList {item : Reader α} (each : Exact item) : Exact (readList item) :=
  exactBind (exactVarint 8 .length) fun n => exactMany each n []

/-! Readers that are put to the same bytes and agree on all that are no longer. -/

theorem bindAgree {r r' : Reader α} {f f' : α → Reader β} {bytes : Bytes} (same : r bytes = r' bytes)
    (next : ∀ a rest, r bytes = .ok (a, rest) → f a rest = f' a rest) : (r >>= f) bytes = (r' >>= f') bytes := by
  cases taken : r bytes with
  | error e => rw [bind_error taken, bind_error (same ▸ taken)]
  | ok p => rw [bind_eq taken, bind_eq (same ▸ taken), next p.1 p.2 taken]

theorem manyAgree {item item' : Reader α} (exact : Exact item) {limit : Nat}
    (same : ∀ bytes, bytes.length ≤ limit → item bytes = item' bytes) (n : Nat) (before : List α)
    {bytes : Bytes} (short : bytes.length ≤ limit) : readMany item n before bytes = readMany item' n before bytes := by
  induction n generalizing before bytes with
  | zero => rfl
  | succ n ih =>
    refine bindAgree (same bytes short) fun a rest taken => ih (a :: before) ?_
    exact Nat.le_trans (exact.shorter taken) short

theorem listAgree {item item' : Reader α} (exact : Exact item) {limit : Nat}
    (same : ∀ bytes, bytes.length ≤ limit → item bytes = item' bytes) {bytes : Bytes}
    (short : bytes.length ≤ limit) : readList item bytes = readList item' bytes := by
  refine bindAgree rfl fun n rest taken => manyAgree exact same n [] ?_
  exact Nat.le_trans ((exactVarint 8 .length).shorter taken) short

end SymbolCatalog.Wire
