import SymbolCatalog.Record.File
import SymbolCatalog.Wire.Lemmas

/-! A record reads back from its bytes in the version in which it was written, whatever follows. As
much fuel as it has bytes is enough: every level takes a byte. -/
namespace SymbolCatalog
open Wire

structure RecordFields.Coded (v : RecordVersion) (f : RecordFields) : Prop where
  name : ReadsBack f.name?
  type : ∀ t ∈ f.type?, ∀ rest, Record.readType v (Record.writeType v t ++ rest) = .ok (t, rest)
  annotations : ReadsBack f.annotations
  few : f.types.length < 2 ^ 64
  types : ∀ t ∈ f.types, ∀ rest, Record.readType v (Record.writeType v t ++ rest) = .ok (t, rest)
  default : ReadsBack f.default?

namespace Record

inductive Coded (v : RecordVersion) : Record → Prop where
  | mk (fields : RecordFields) (children : List Record) (coded : fields.Coded v)
      (few : children.length < 2 ^ 64) (below : ∀ r ∈ children, Coded v r) : Coded v (.mk fields children)

theorem encodeAllFlat (v : RecordVersion) (rs : List Record) : encodeAll v rs = rs.flatMap (encode v) := by
  induction rs with
  | nil => rfl
  | cons r rs ih => rw [encodeAll, ih, List.flatMap_cons]

theorem readHeadWritten {v : RecordVersion} {f : RecordFields} (coded : f.Coded v) (rest : Bytes) :
    readHead v (writeHead v f ++ rest) = .ok ({ f with default? := none }, rest) := by
  have type := fun more => readOption_write coded.type more
  have types := readList_write coded.types coded.few rest
  unfold readHead writeHead
  simp only [List.append_assoc]
  rw [bind_eq (readsBack_byte _ _), bind_eq (readsBack_byte _ _), bind_eq (coded.name _), bind_eq (type _),
    bind_eq (readsBack_word _ _), bind_eq (coded.annotations _), bind_eq types]
  rfl

theorem readEncoded {v : RecordVersion} {r : Record} (coded : r.Coded v) (fuel : Nat)
    (enough : (r.encode v).length ≤ fuel) (rest : Bytes) :
    readRecord v fuel (r.encode v ++ rest) = .ok (r, rest) := by
  induction coded generalizing fuel rest with
  | mk fields children coded few below ih =>
    have bytes : encode v (.mk fields children) =
        writeHead v fields ++ writeList (encode v) children ++ write fields.default? := by
      rw [encode, encodeAllFlat]
      rfl
    rw [bytes] at enough ⊢
    simp only [List.length_append] at enough
    cases fuel with
    | zero =>
      unfold writeHead at enough
      simp only [List.length_append] at enough
      have byte : (write fields.kind).length = 1 := rfl
      omega
    | succ fuel =>
      have child : ∀ r ∈ children, ∀ rest, readRecord v fuel (encode v r ++ rest) = .ok (r, rest) := by
        intro r mem rest
        refine ih r mem fuel ?_ rest
        have part : (encode v r).length ≤ (children.flatMap (encode v)).length :=
          (List.sublist_flatten_of_mem (List.mem_map_of_mem mem)).length_le
        unfold writeHead writeList at enough
        simp only [List.length_append] at enough
        have byte : (write fields.kind).length = 1 := rfl
        omega
      unfold readRecord
      simp only [List.append_assoc]
      rw [bind_eq (readHeadWritten coded _), bind_eq (readList_write child few _), bind_eq (coded.default rest)]
      rfl

theorem decodeEncoded {v : RecordVersion} {r : Record} (coded : r.Coded v) :
    decode v (r.encode v) = .ok (r, []) := by
  have read := readEncoded coded _ (Nat.le_refl _) []
  rwa [List.append_nil] at read

/-! The six bytes before the record. -/

theorem versionNumber {v : RecordVersion} {n : Nat} : RecordVersion.ofNumber? n = some v ↔ n = v.number := by
  constructor
  · intro known
    unfold RecordVersion.ofNumber? at known
    split at known
    all_goals cases known
    all_goals rfl
  · rintro rfl
    cases v <;> rfl

theorem readVersionFront {front body : Bytes} (six : front.length = 6) :
    readVersion (front ++ body) = readVersion front := by
  have four : (front ++ body).take 4 = front.take 4 := List.take_append_of_le_length (by omega)
  have two : ((front ++ body).drop 4).take 2 = (front.drop 4).take 2 := by
    rw [List.drop_append_of_le_length (by omega), List.take_append_of_le_length (by rw [List.length_drop]; omega)]
  have long : ¬ (front ++ body).length < 6 := by
    rw [List.length_append]
    omega
  have long' : ¬ front.length < 6 := by omega
  unfold readVersion
  rw [if_neg long, if_neg long', four, two]

theorem ofFileBody {v : RecordVersion} {front : Bytes} (six : front.length = 6)
    (version : readVersion front = .ok v.number) (body : Bytes) :
    ofFile (front ++ body) = match decode v body with
      | .error e => .error (.unreadable e)
      | .ok (record, []) => .ok record
      | .ok (_, rest) => .error (.trailing rest.length) := by
  have after : (front ++ body).drop 6 = body := by rw [← six, List.drop_left]
  have known : RecordVersion.ofNumber? v.number = some v := versionNumber.2 rfl
  unfold ofFile
  rw [readVersionFront six, version, after]
  simp only [bind, Except.bind, known]
  rcases decode v body with e | ⟨record, rest⟩
  · rfl
  · cases rest <;> rfl

theorem ofFileParts {bytes : Bytes} {record : Record} (read : ofFile bytes = .ok record) :
    ∃ front v body, bytes = front ++ body ∧ front.length = 6 ∧ readVersion front = .ok v.number ∧
      decode v body = .ok (record, []) := by
  have split : bytes = bytes.take 6 ++ bytes.drop 6 := (List.take_append_drop 6 bytes).symm
  cases version : readVersion bytes with
  | error fault =>
    rw [ofFile, version] at read
    cases read
  | ok number =>
    have six : (bytes.take 6).length = 6 := by
      unfold readVersion at version
      split at version
      · cases version
      · rw [List.length_take]
        omega
    cases known : RecordVersion.ofNumber? number with
    | none =>
      rw [ofFile, version] at read
      simp only [bind, Except.bind, known] at read
      cases read
    | some v =>
      obtain rfl := versionNumber.1 known
      rw [split, readVersionFront six] at version
      rw [split, ofFileBody six version] at read
      refine ⟨_, v, _, split, six, version, ?_⟩
      split at read
      · cases read
      · next decoded =>
        cases read
        exact decoded
      · cases read

theorem readVersionWritten (v : RecordVersion) (body : Bytes) :
    readVersion (magic ++ Bytes.ofNatLE 2 v.number ++ body) = .ok v.number := by
  rw [readVersionFront rfl]
  cases v <;> rfl

theorem ofFileWritten {v : RecordVersion} {r : Record} (coded : r.Coded v) :
    ofFile (r.toFile v) = .ok r := by
  have version := readVersionWritten v []
  rw [List.append_nil] at version
  rw [toFile, ofFileBody rfl version, decodeEncoded coded]

end Record

theorem Tree.decodedFile {bytes : Bytes} {t : Tree} {table table' : NameTable}
    (read : Tree.decode bytes table = (.ok t, table')) :
    ∃ record, Record.ofFile bytes = .ok record ∧ record.tree.run table = (.ok t, table') := by
  unfold Tree.decode at read
  cases file : Record.ofFile bytes with
  | error fault =>
    rw [file] at read
    cases read
  | ok record =>
    rw [file] at read
    exact ⟨record, rfl, read⟩

end SymbolCatalog
