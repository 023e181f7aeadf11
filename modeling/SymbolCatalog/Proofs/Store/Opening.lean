import SymbolCatalog.Proofs.Store.Snapshot
import SymbolCatalog.Proofs.Wire.Forms

/-! What a snapshot that opens looks like: each layer is exactly what would be written of what is in
it. Only the dictionary inside is read from the front of the data, and what stands behind it is
passed over. -/
namespace SymbolCatalog
open Wire

theorem Except.passed {ε α : Type} {c : Prop} [Decidable c] {e : ε} {next : Except ε α} {a : α}
    (answered : (if c then .error e else next) = .ok a) : ¬ c ∧ next = .ok a := by
  split at answered
  · cases answered
  · next fine => exact ⟨fine, answered⟩

/-! A layer that was taken off was there as it is written. -/

theorem Bytes.ofNatLE_toNatLE (bytes : Bytes) : ofNatLE bytes.length (toNatLE bytes) = bytes := by
  induction bytes with
  | nil => rfl
  | cons b rest ih =>
    have byte := b.toNat_lt
    have low : UInt8.ofNat (b.toNat + 256 * toNatLE rest) = b := by
      apply UInt8.toNat_inj.1
      rw [UInt8.toNat_ofNat']
      omega
    have high : (b.toNat + 256 * toNatLE rest) / 256 = toNatLE rest := by omega
    rw [toNatLE, List.length_cons, ofNatLE, low, high, ih]

theorem Bytes.field (width : Nat) {bytes : Bytes} (wide : bytes.length = width) :
    bytes = ofNatLE width (toNatLE bytes) ∧ toNatLE bytes < 256 ^ width := by
  subst wide
  exact ⟨bytes.ofNatLE_toNatLE.symm, bytes.toNatLEBelow⟩

namespace Packed
variable {codec : Codec} {frame data : Bytes}

theorem frameShape (unpacked : unpackWith codec frame = .ok data) :
    ∃ name length body, frame = framed name length body ∧ length < 0x100000000 := by
  unfold unpackWith at unpacked
  split at unpacked
  · next name l0 l1 l2 l3 body =>
    obtain ⟨field, short⟩ := Bytes.field 4 (rfl : [l0, l1, l2, l3].length = 4)
    exact ⟨name, _, body, congrArg (name :: · ++ body) field, short⟩
  · cases unpacked

theorem unpackExact : unpackWith codec frame = .ok data ↔ ∃ name body, frame = framed name data.length body ∧
    data.length < 0x100000000 ∧ decodeBody codec name body data.length = .ok data := by
  constructor
  · intro unpacked
    obtain ⟨name, length, body, rfl, short⟩ := frameShape unpacked
    rw [unpackFrame short] at unpacked
    cases decoded : decodeBody codec name body length with
    | error e =>
      rw [decoded] at unpacked
      cases unpacked
    | ok found =>
      rw [decoded] at unpacked
      obtain ⟨same, last⟩ := Except.passed unpacked
      cases last
      obtain rfl := Decidable.not_not.1 same
      exact ⟨name, body, rfl, short, decoded⟩
  · rintro ⟨name, body, rfl, short, decoded⟩
    exact unpackFramed short decoded

theorem decodeBodyOk {name : UInt8} {body : Bytes} {length : Nat} :
    decodeBody codec name body length = .ok data ↔
      name = storedCodec ∧ body = data ∨ name = zstdCodec ∧ codec.decompress body length = some data := by
  have apart : zstdCodec ≠ storedCodec := by decide
  unfold decodeBody
  by_cases stored : name = storedCodec
  · subst stored
    simp [apart.symm]
  · by_cases zstd : name = zstdCodec
    · subst zstd
      cases decompressed : codec.decompress body length <;> simp [apart]
    · simp [stored, zstd]

end Packed

namespace Snapshot
variable {codec : Codec} {bytes data : Bytes}

theorem fieldBehind (bytes : Bytes) (start width : Nat) :
    bytes.drop start = (bytes.drop start).take width ++ bytes.drop (start + width) := by
  rw [← List.drop_drop, List.take_append_drop]

theorem fieldWide {start width : Nat} (inside : start + width ≤ bytes.length) :
    ((bytes.drop start).take width).length = width := by
  rw [List.length_take, List.length_drop]
  omega

theorem cutFields (bytes : Bytes) (length : Nat) :
    bytes = bytes.take 4 ++ (bytes.drop 4).take 2 ++ (bytes.drop 6).take 4 ++ (bytes.drop headerLength).take length ++
      bytes.drop (headerLength + length) := by
  simp only [List.append_assoc]
  rw [← fieldBehind bytes headerLength length]
  change bytes = bytes.take 4 ++ ((bytes.drop 4).take 2 ++ ((bytes.drop 6).take 4 ++ bytes.drop (6 + 4)))
  rw [← fieldBehind bytes 6 4]
  change bytes = bytes.take 4 ++ ((bytes.drop 4).take 2 ++ bytes.drop (4 + 2))
  rw [← fieldBehind bytes 4 2, List.take_append_drop]

theorem payloadExact : payload bytes = .ok data ↔ bytes = framed data ∧ data.length < 0x100000000 := by
  constructor
  · intro read
    unfold payload at read
    obtain ⟨long, read⟩ := Except.passed read
    obtain ⟨begins, read⟩ := Except.passed read
    obtain ⟨known, read⟩ := Except.passed read
    obtain ⟨total, read⟩ := Except.passed read
    obtain ⟨digest, read⟩ := Except.passed read
    cases read
    simp only [Decidable.not_not] at begins known total digest
    have ten : headerLength = 10 := rfl
    have short : headerLength + digestLength ≤ bytes.length := Nat.not_lt.1 long
    obtain ⟨versionField, -⟩ := Bytes.field 2 (fieldWide (by omega) : ((bytes.drop 4).take 2).length = 2)
    obtain ⟨lengthField, below⟩ := Bytes.field 4 (fieldWide (by omega) : ((bytes.drop 6).take 4).length = 4)
    have wide := fieldWide (by omega : headerLength + Bytes.toNatLE ((bytes.drop 6).take 4) ≤ bytes.length)
    refine ⟨(cutFields bytes (Bytes.toNatLE ((bytes.drop 6).take 4))).trans ?_, ?_⟩
    · rw [framed, wide, digest, begins, ← lengthField, ← known, ← versionField]
    · exact Nat.lt_of_le_of_lt (Nat.le_of_eq wide) below
  · rintro ⟨rfl, short⟩
    exact payloadFramed short

theorem framedInjective {other : Bytes} (short : data.length < 0x100000000) (short' : other.length < 0x100000000)
    (same : framed data = framed other) : data = other := by
  have read := payloadFramed short
  rw [same, payloadFramed short'] at read
  exact (Except.ok.inj read).symm

theorem framedLength (data : Bytes) : (framed data).length = headerLength + data.length + digestLength := by
  simp only [framed, List.length_append, Bytes.length_ofNatLE, Digest.length_sha256]
  rfl

theorem lengthField (data more : Bytes) : ((framed data ++ more).drop 6).take 4 = Bytes.ofNatLE 4 data.length := by
  simp only [framed, List.append_assoc]
  rfl

theorem framedAlone {other : Bytes} (short : data.length < 0x100000000) (short' : other.length < 0x100000000)
    (front : framed data <+: framed other) : data = other := by
  obtain ⟨behind, whole⟩ := front
  have field := lengthField data behind
  rw [whole, ← List.append_nil (framed other), lengthField] at field
  have lengths := congrArg Bytes.toNatLE field
  rw [Bytes.toNatLE_ofNatLE_of_lt short', Bytes.toNatLE_ofNatLE_of_lt short] at lengths
  refine framedInjective short short' (List.IsPrefix.eq_of_length ⟨behind, whole⟩ ?_)
  rw [framedLength, framedLength, lengths]

theorem decodeUnpacked {frame : Bytes} (short : frame.length < 0x100000000)
    (unpacked : Packed.unpackWith codec frame = .ok data) :
    decode codec (framed frame) = match (read data : Except ReadError (Entries × Bytes)) with
      | .ok (entries, _) => .ok entries
      | .error e => .error (.unreadable e) := by
  simp only [decode, payloadFramed short, unpacked, bind, Except.bind]
  rfl

theorem decodeLayers {entries : Entries} (decoded : decode codec bytes = .ok entries) :
    ∃ frame data, bytes = framed frame ∧ frame.length < 0x100000000 ∧ Packed.unpackWith codec frame = .ok data := by
  cases found : payload bytes with
  | error e =>
    rw [decode, found] at decoded
    cases decoded
  | ok frame =>
    obtain ⟨rfl, short⟩ := payloadExact.1 found
    cases unpacked : Packed.unpackWith codec frame with
    | error e =>
      simp only [decode, found, unpacked, bind, Except.bind] at decoded
      cases decoded
    | ok data => exact ⟨frame, data, rfl, short, unpacked⟩

def payloadField (length : Nat) (bytes : Bytes) : Bytes := (bytes.drop headerLength).take length

def digestField (length : Nat) (bytes : Bytes) : Bytes := bytes.drop (headerLength + length)

theorem framedFields (data : Bytes) : payloadField data.length (framed data) = data ∧
    digestField data.length (framed data) = Digest.sha256 data := by
  have after : (framed data).drop headerLength = data ++ Digest.sha256 data := by
    simp only [framed, List.append_assoc]
    rfl
  constructor
  · rw [payloadField, after, List.take_left]
  · rw [digestField, ← List.drop_drop, after, List.drop_left]

def Refused (codec : Codec) (bytes : Bytes) : Prop :=
  ∀ level site, site.snapshot = .file bytes → ∃ e, FileStore.openWith codec level site = .error e

def HoldsData (codec : Codec) (frame : Bytes) : Prop :=
  ∃ name body data, frame = Packed.framed name data.length body ∧ data.length < 0x100000000 ∧
    (name = Packed.storedCodec ∧ body = data ∨
      name = Packed.zstdCodec ∧ codec.decompress body data.length = some data)

structure Guarded (codec : Codec) (frame bytes : Bytes) : Prop where
  layout : bytes = framed frame
  short : frame.length < 0x100000000
  data : HoldsData codec frame
  cut : ∀ front, front <+: bytes → front ≠ bytes → Refused codec front
  extended : ∀ more, more ≠ [] → Refused codec (bytes ++ more)
  around : ∀ altered, altered.length = bytes.length → altered ≠ bytes → payloadField frame.length altered = frame →
    Refused codec altered
  within : ∀ altered, altered.length = bytes.length → payloadField frame.length altered ≠ frame →
    Digest.sha256 (payloadField frame.length altered) ≠ digestField frame.length altered → Refused codec altered

end Snapshot

namespace FileStore
variable {codec : Codec} {level : CompressionLevel} {site : Site} {bytes : Bytes}

theorem refusedUnframed (unframed : ∀ frame, frame.length < 0x100000000 → bytes ≠ Snapshot.framed frame) :
    Snapshot.Refused codec bytes := by
  intro level site there
  cases opened : openWith codec level site with
  | error e => exact ⟨e, rfl⟩
  | ok store =>
    obtain ⟨frame, data, framed, short, -⟩ := Snapshot.decodeLayers (openedFile there opened).1
    exact absurd framed (unframed frame short)

/-- A snapshot that opens is laid out as snapshots are written: the magic bytes, the version, the
length of the payload, the payload and its digest; and the payload names one of two codecs and the
length of the data, and holds what decodes to exactly so much. So every cut of it is refused, and so is
every extension, everything else of its length with the same payload, and everything of its length
with another payload whose digest does not stand behind it. -/
theorem openedGuarded (codec : Codec) (level : CompressionLevel) (site : Site) (bytes : Bytes) (store : FileStore)
    (there : site.snapshot = .file bytes) (opened : openWith codec level site = .ok store) :
    ∃ frame, Snapshot.Guarded codec frame bytes := by
  obtain ⟨frame, data, rfl, short, unpacked⟩ := Snapshot.decodeLayers (openedFile there opened).1
  obtain ⟨name, body, shape, few, decoded⟩ := Packed.unpackExact.1 unpacked
  -- Bytes of this length that are the snapshot of a payload have one of the same length.
  have fields : ∀ altered other, altered.length = (Snapshot.framed frame).length → altered = Snapshot.framed other →
      Snapshot.payloadField frame.length altered = other ∧
        Snapshot.digestField frame.length altered = Digest.sha256 other := by
    intro altered other lengths framed
    rw [framed, Snapshot.framedLength, Snapshot.framedLength] at lengths
    have same : frame.length = other.length := by omega
    rw [framed, same]
    exact Snapshot.framedFields other
  refine ⟨frame, rfl, short, ⟨name, body, data, shape, few, Packed.decodeBodyOk.1 decoded⟩, ?_, ?_, ?_, ?_⟩
  · intro front among proper
    refine refusedUnframed fun other short' framed => proper ?_
    rw [framed] at among ⊢
    rw [Snapshot.framedAlone short' short among]
  · intro more some
    refine refusedUnframed fun other short' framed => some ?_
    obtain rfl := Snapshot.framedAlone short short' ⟨more, framed⟩
    exact List.append_right_eq_self.1 framed
  · intro altered lengths changed kept
    refine refusedUnframed fun other _ framed => changed ?_
    rw [framed, ← (fields altered other lengths framed).1, kept]
  · intro altered lengths _ wrong
    refine refusedUnframed fun other _ framed => wrong ?_
    rw [(fields altered other lengths framed).1, (fields altered other lengths framed).2]

end FileStore

def storedFrame (data : Bytes) : Bytes := Packed.framed Packed.storedCodec data.length data

def siteOf (frame : Bytes) : Site := { Site.bare with parent := true, snapshot := .file (Snapshot.framed frame) }

theorem unpackStored {codec : Codec} {data : Bytes} (short : data.length < 0x100000000) :
    Packed.unpackWith codec (storedFrame data) = .ok data := Packed.unpackFramed short rfl

def oneEntryData : Bytes := [1, 1, 0x6b, 1, 0x76]

def oneEntry : Bytes := storedFrame oneEntryData

theorem oneEntryGuarded : (siteOf oneEntry).snapshot = .file (Snapshot.framed oneEntry) ∧
    FileStore.openAt .off (siteOf oneEntry) = .ok ⟨.off, .ofList [([0x6b], [0x76])], false⟩ ∧
    ∃ frame, Snapshot.Guarded .zstd frame (Snapshot.framed oneEntry) := by
  have opened : FileStore.openAt .off (siteOf oneEntry) = .ok ⟨.off, .ofList [([0x6b], [0x76])], false⟩ := by
    have unpacked : Packed.unpackWith .zstd oneEntry = .ok oneEntryData := unpackStored (by decide)
    rw [FileStore.openAt, FileStore.openThere rfl, Snapshot.decodeUnpacked (by decide) unpacked]
    rfl
  exact ⟨rfl, opened, FileStore.openedGuarded .zstd .off _ _ _ rfl opened⟩

/-! What stands in the data of a snapshot. -/

namespace FileStore
variable {codec : Codec} {level : CompressionLevel} {site : Site} {frame data : Bytes}

theorem opensFront (there : site.snapshot = .file (Snapshot.framed frame)) (short : frame.length < 0x100000000)
    (unpacked : Packed.unpackWith codec frame = .ok data) (store : FileStore) :
    openWith codec level site = .ok store ↔
      ∃ part tail, data = part ++ tail ∧ EntriesForm part store.entries ∧ store = ⟨level, store.entries, false⟩ := by
  rw [openThere there, Snapshot.decodeUnpacked short unpacked]
  constructor
  · intro opened
    cases found : (read data : Except ReadError (Entries × Bytes)) with
    | error e =>
      rw [found] at opened
      cases opened
    | ok result =>
      rw [found] at opened
      cases opened
      obtain ⟨part, taken, form⟩ := (takesEntries data result.1 result.2).1 found
      exact ⟨part, result.2, taken, form, rfl⟩
  · rintro ⟨part, tail, taken, form, same⟩
    rw [(takesEntries data store.entries tail).2 ⟨part, taken, form⟩, same]
    rfl

def TakesWhole (codec : Codec) (level : CompressionLevel) (site : Site) (data : Bytes) : Prop :=
  (∀ store, openWith codec level site = .ok store → EntriesForm data store.entries) ∧
  ∀ part tail entries, data = part ++ tail → EntriesForm part entries → tail ≠ [] →
    ∃ what, openWith codec level site = .error (.corrupted what)

/-- A snapshot whose layers are all in order opens exactly with a dictionary that its data begins with.
So the verdict on it is that on the whole data exactly where no bytes follow a dictionary there; bytes
that follow one are passed over. -/
theorem dataTakenFromFront (codec : Codec) (level : CompressionLevel) (site : Site) (frame data : Bytes)
    (there : site.snapshot = .file (Snapshot.framed frame)) (short : frame.length < 0x100000000)
    (unpacked : Packed.unpackWith codec frame = .ok data) :
    (∀ entries, openWith codec level site = .ok ⟨level, entries, false⟩ ↔
      ∃ part tail, data = part ++ tail ∧ EntriesForm part entries) ∧
    (TakesWhole codec level site data ↔
      ∀ part tail entries, data = part ++ tail → EntriesForm part entries → tail = []) := by
  have front := @opensFront codec level site frame data there short unpacked
  refine ⟨fun entries => ?_, ?_, ?_⟩
  · rw [front]
    exact ⟨fun ⟨part, tail, taken, form, _⟩ => ⟨part, tail, taken, form⟩,
      fun ⟨part, tail, taken, form⟩ => ⟨part, tail, taken, form, rfl⟩⟩
  · intro ⟨_, refused⟩ part tail entries taken form
    refine Decidable.byContradiction fun some => ?_
    obtain ⟨what, corrupted⟩ := refused part tail entries taken form some
    cases corrupted.symm.trans ((front ⟨level, entries, false⟩).2 ⟨part, tail, taken, form, rfl⟩)
  · intro alone
    refine ⟨fun store opened => ?_, fun part tail entries taken form some => ?_⟩
    · obtain ⟨part, tail, taken, form, -⟩ := (front store).1 opened
      obtain rfl := alone part tail store.entries taken form
      rw [taken, List.append_nil]
      exact form
    · exact absurd (alone part tail entries taken form) some

end FileStore

def tailedEntry : Bytes := storedFrame (oneEntryData ++ [0])

theorem tailedEntryOpens : (siteOf tailedEntry).snapshot = .file (Snapshot.framed tailedEntry) ∧
    tailedEntry.length < 0x100000000 ∧ Packed.unpackWith .zstd tailedEntry = .ok (oneEntryData ++ [0]) ∧
    FileStore.openAt .off (siteOf tailedEntry) = .ok ⟨.off, .ofList [([0x6b], [0x76])], false⟩ ∧
    ¬ FileStore.TakesWhole .zstd .off (siteOf tailedEntry) (oneEntryData ++ [0]) := by
  have short : tailedEntry.length < 0x100000000 := by decide
  have unpacked : Packed.unpackWith .zstd tailedEntry = .ok (oneEntryData ++ [0]) := unpackStored (by decide)
  have form : EntriesForm oneEntryData (.ofList [([0x6b], [0x76])]) := takesEntries.whole.1 rfl
  obtain ⟨opens, whole⟩ := FileStore.dataTakenFromFront .zstd .off (siteOf tailedEntry) _ _ rfl short unpacked
  refine ⟨rfl, short, unpacked, (opens _).2 ⟨oneEntryData, [0], rfl, form⟩, fun takes => ?_⟩
  cases whole.1 takes oneEntryData [0] _ rfl form

theorem trailingByteIgnored : (siteOf (storedFrame [0, 0])).snapshot = .file (Snapshot.framed (storedFrame [0, 0])) ∧
    Packed.unpackWith .zstd (storedFrame [0, 0]) = .ok [0, 0] ∧ EntriesForm [0] .empty ∧
    FileStore.openAt .off (siteOf (storedFrame [0, 0])) = .ok ⟨.off, .empty, false⟩ ∧
    ¬ ∃ entries, EntriesForm [0, 0] entries := by
  have unpacked : Packed.unpackWith .zstd (storedFrame [0, 0]) = .ok [0, 0] := unpackStored (by decide)
  have form : EntriesForm [0] .empty := takesEntries.whole.1 rfl
  refine ⟨rfl, unpacked, form, ?_, fun ⟨entries, whole⟩ => ?_⟩
  · exact (FileStore.opensFront rfl (by decide) unpacked _).2 ⟨[0], [0], rfl, form, rfl⟩
  · have read : (read [0, 0] : Except ReadError (Entries × Bytes)) = .ok (.empty, [0]) := rfl
    cases read.symm.trans (takesEntries.whole.2 whole)

end SymbolCatalog
