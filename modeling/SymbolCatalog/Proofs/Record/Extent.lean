import SymbolCatalog.Proofs.Record.Reading
import SymbolCatalog.Proofs.Wire.Extent

/-! Where a stored tree ends. Its bytes say so themselves, record by record, so a file that was cut
off is told as bytes that are missing and a longer one as bytes that trail, wherever the cut was made
and whatever was put behind. -/
namespace SymbolCatalog
open Wire

namespace Record
variable {v : RecordVersion}

theorem exactType (v : RecordVersion) : Exact (readType v) := by
  cases v with
  | one =>
    exact exactBind exactText fun text => exactBind exactByte fun depth => exactBind (exactTag _) fun varargs =>
      exactPure _
  | two =>
    exact exactBind exactText fun text => exactBind exactByte fun depth => exactBind (exactTag _) fun varargs =>
      exactBind (exactList exactText) fun annotations => exactPure _

theorem exactAnnotation : Exact (read : Reader Annotation) :=
  exactBind exactText fun _ => exactBind (exactTag _) fun _ => exactPure _

theorem exactHead (v : RecordVersion) : Exact (readHead v) := by
  unfold readHead
  exact exactBind exactByte fun kind => exactBind exactByte fun flags =>
    exactBind (exactOption exactText) fun name? => exactBind (exactOption (exactType v)) fun type? =>
    exactBind (exactMap (exactVarint 4 .u32)) fun mask => exactBind (exactList exactAnnotation) fun annotations =>
    exactBind (exactList (exactType v)) fun types => exactPure _

theorem headTakes {bytes rest : Bytes} {f : RecordFields} (read : readHead v bytes = .ok (f, rest)) :
    rest.length < bytes.length := by
  obtain ⟨part, rfl, spelled⟩ := exactHead v bytes f rest read
  cases part with
  | nil =>
    have nothing : readHead v [] = .error (.unexpectedEnd 1) := rfl
    cases nothing.symm.trans spelled.reads
  | cons b part =>
    rw [List.length_append, List.length_cons]
    omega

theorem exactRecord (v : RecordVersion) (fuel : Nat) : Exact (readRecord v fuel) := by
  induction fuel with
  | zero => exact exactThrow _
  | succ fuel ih =>
    exact exactBind (exactHead v) fun f => exactBind (exactList ih) fun children =>
      exactBind (exactOption exactText) fun default? => exactPure _

/-! As much fuel as there are bytes is enough: more of it changes nothing. -/

theorem emptyRecord (v : RecordVersion) (fuel : Nat) : readRecord v fuel [] = .error (.unexpectedEnd 1) := by
  cases fuel <;> rfl

theorem enoughFuel {fuel fuel' : Nat} {bytes : Bytes} (enough : bytes.length ≤ fuel) (enough' : bytes.length ≤ fuel') :
    readRecord v fuel bytes = readRecord v fuel' bytes := by
  induction fuel generalizing fuel' bytes with
  | zero =>
    obtain rfl := List.length_eq_zero_iff.1 (Nat.le_zero.1 enough)
    rw [emptyRecord, emptyRecord]
  | succ fuel ih =>
    cases fuel' with
    | zero =>
      obtain rfl := List.length_eq_zero_iff.1 (Nat.le_zero.1 enough')
      rw [emptyRecord, emptyRecord]
    | succ fuel' =>
      -- Below the head fewer bytes are left than the fuel of either side.
      refine bindAgree rfl fun f rest head => bindAgree ?_ fun _ _ _ => rfl
      have fewer := headTakes head
      exact listAgree (exactRecord v fuel) (fun below short => ih (by omega) (by omega)) (Nat.le_refl rest.length)

theorem exactDecode (v : RecordVersion) : Exact (decode v) := by
  intro bytes r rest read
  -- With fuel for the longer of two byte strings both are read as with their own.
  have fueled : ∀ fuel, bytes.length ≤ fuel → ∃ part, bytes = part ++ rest ∧ Spells (readRecord v fuel) part r := by
    intro fuel enough
    exact exactRecord v fuel bytes r rest ((enoughFuel enough (Nat.le_refl _)).trans read)
  obtain ⟨part, taken, spelled⟩ := fueled bytes.length (Nat.le_refl _)
  refine ⟨part, taken, fun more => ?_, fun front among proper => ?_⟩
  · obtain ⟨part', taken', spelled'⟩ := fueled (bytes.length + (part ++ more).length) (Nat.le_add_right _ _)
    obtain rfl := List.append_cancel_right (taken.symm.trans taken')
    have whole := spelled'.whole more
    rwa [enoughFuel (Nat.le_add_left _ _) (Nat.le_refl _)] at whole
  · obtain ⟨missing, short⟩ := spelled.cut front among proper
    have within : front.length ≤ bytes.length := by
      rw [taken, List.length_append]
      exact Nat.le_trans among.length_le (Nat.le_add_right _ _)
    exact ⟨missing, (enoughFuel (Nat.le_refl _) within).trans short⟩

/-! A whole file, cut off or with bytes behind it. -/

theorem ofFileTrailing {bytes more : Bytes} {record : Record} (read : ofFile bytes = .ok record) (some : more ≠ []) :
    ofFile (bytes ++ more) = .error (.trailing more.length) := by
  obtain ⟨front, v, body, rfl, six, version, decoded⟩ := ofFileParts read
  rw [List.append_assoc, ofFileBody six version, ((exactDecode v).spells decoded).whole more]
  cases more with
  | nil => exact absurd rfl some
  | cons b more => rfl

def Fault.Missing (length : Nat) (fault : Fault) : Prop :=
  fault = .shortHeader length ∨ ∃ missing, fault = .unreadable (.unexpectedEnd missing)

theorem ofFileCut {bytes cut : Bytes} {record : Record} (read : ofFile bytes = .ok record) (among : cut <+: bytes)
    (proper : cut ≠ bytes) : ∃ fault, ofFile cut = .error fault ∧ fault.Missing cut.length := by
  by_cases short : cut.length < 6
  · refine ⟨.shortHeader cut.length, ?_, .inl rfl⟩
    rw [ofFile, readVersion, if_pos short]
    rfl
  · obtain ⟨front, v, body, rfl, six, version, decoded⟩ := ofFileParts read
    -- The six bytes are there, so the cut goes through the record.
    obtain ⟨body', rfl⟩ : front <+: cut :=
      List.prefix_of_prefix_length_le (List.prefix_append front body) among (by omega)
    have within : body' <+: body := (List.prefix_append_right_inj front).1 among
    obtain ⟨missing, error⟩ := ((exactDecode v).spells decoded).cut body' within fun same => proper (same ▸ rfl)
    refine ⟨.unreadable (.unexpectedEnd missing), ?_, .inr ⟨missing, rfl⟩⟩
    rw [ofFileBody six version, error]

end Record

namespace Tree
open Record (Fault)

/-- A stored tree says where it ends. Where bytes are read as a tree, every cut of them is refused,
because the six bytes at the beginning or bytes of the record are missing; and when bytes follow it is
refused, because so many of them trail. Names that are known change nothing in this, and they stay. -/
theorem storedTreeDelimited (bytes : Bytes) (t : Tree) (table table' : NameTable)
    (read : decode bytes table = (.ok t, table')) :
    (∀ cut, cut <+: bytes → cut ≠ bytes → ∃ fault : Fault, fault.Missing cut.length ∧
      ∀ known, decode cut known = (.error fault, known)) ∧
    ∀ more, more ≠ [] → ∃ fault : Fault, fault = .trailing more.length ∧
      fault.message = "Corrupt descriptor data: " ++ s!"{more.length} trailing bytes after root record" ∧
      ∀ known, decode (bytes ++ more) known = (.error fault, known) := by
  obtain ⟨record, file, -⟩ := decodedFile read
  constructor
  · intro cut among proper
    obtain ⟨fault, refused, missing⟩ := Record.ofFileCut file among proper
    refine ⟨fault, missing, fun known => ?_⟩
    rw [decode, refused]
  · intro more some
    refine ⟨.trailing more.length, rfl, rfl, fun known => ?_⟩
    rw [decode, Record.ofFileTrailing file some]

def arrayFieldBytes : Bytes :=
  Record.magic ++ [2, 0] ++
    [0, 0, 1, 1, 112, 0, 0, 0, 0, 1] ++
    [2, 0, 1, 1, 120, 1, 1, 84, 1, 0, 1, 1, 78, 251, 9, 0, 0, 0, 0, 0] ++
    [0]

theorem arrayFieldDelimited : ∃ t table', decode arrayFieldBytes .empty = (.ok t, table') ∧
    (∃ fault : Fault, fault.Missing 30 ∧ decode (arrayFieldBytes.take 30) .empty = (.error fault, .empty)) ∧
    decode (arrayFieldBytes ++ [0]) .empty = (.error (.trailing 1), .empty) := by
  have accepted : (decode arrayFieldBytes .empty).1.toOption.isSome := by decide +kernel
  cases read : decode arrayFieldBytes .empty with
  | mk answer table' =>
    rw [read] at accepted
    cases answer with
    | error fault => cases accepted
    | ok t =>
      obtain ⟨cuts, longer⟩ := storedTreeDelimited arrayFieldBytes t .empty table' read
      obtain ⟨fault, missing, refused⟩ := cuts (arrayFieldBytes.take 30) (List.take_prefix _ _) (by decide)
      obtain ⟨_, rfl, -, trails⟩ := longer [0] (List.cons_ne_nil _ _)
      exact ⟨t, table', rfl, ⟨fault, missing, refused .empty⟩, trails .empty⟩

end Tree
end SymbolCatalog
