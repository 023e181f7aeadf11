import Mathlib.Algebra.Order.BigOperators.Group.List
import Mathlib.Algebra.Order.Group.Nat
import SymbolCatalog.Proofs.Ends
import SymbolCatalog.Proofs.Store.Packed
import SymbolCatalog.Store.File

/-! Snapshots: a dictionary reads back from the snapshot that was written of it, at whatever level it
was written and is opened, under any codec that loses nothing. -/
namespace SymbolCatalog
open Wire

/-! A dictionary is what its pairs in order make. -/

namespace Entries

theorem samePairs {a b : Entries} (same : a.pairs = b.pairs) : a = b := by
  cases a
  cases b
  cases same
  rfl

theorem insertLast {key value : Bytes} {pairs : List (Bytes × Bytes)} (below : ∀ p ∈ pairs, p.1 < key) :
    insertSorted key value pairs = pairs ++ [(key, value)] := by
  induction pairs with
  | nil => rfl
  | cons p rest ih =>
    have lt := below p (.head _)
    have notBelow : ¬ key < p.1 := List.lt_asymm lt
    have other : key ≠ p.1 := fun same => List.lt_irrefl key (same ▸ lt)
    rw [insertSorted, if_neg notBelow, if_neg other, ih fun q mem => below q (.tail _ mem), List.cons_append]

theorem insertAll {pairs : List (Bytes × Bytes)} (entries : Entries)
    (ascend : KeysAscend (entries.pairs ++ pairs)) :
    (pairs.foldl (fun entries p => entries.insert p.1 p.2) entries).pairs = entries.pairs ++ pairs := by
  induction pairs generalizing entries with
  | nil => exact (List.append_nil _).symm
  | cons p rest ih =>
    have below : ∀ q ∈ entries.pairs, q.1 < p.1 :=
      fun q mem => (List.pairwise_append.1 ascend).2.2 q mem p (.head _)
    have grown : (entries.insert p.1 p.2).pairs ++ rest = entries.pairs ++ p :: rest := by
      change insertSorted p.1 p.2 entries.pairs ++ rest = _
      rw [insertLast below, List.append_assoc, List.singleton_append]
    rw [List.foldl_cons, ih _ (grown ▸ ascend), grown]

theorem ofPairs (entries : Entries) : ofList entries.pairs = entries :=
  samePairs (insertAll empty entries.ascend)

end Entries

/-! What is written of a list is no shorter than the list, nor than what is written of an element. -/

theorem Wire.varintLength (n : Nat) : 1 ≤ (writeVarint n).length := by
  unfold writeVarint
  repeat' split
  all_goals simp

theorem Wire.listLength {α : Type} [Wire α] {items : List α} (each : ∀ a ∈ items, 1 ≤ (write a).length) :
    items.length ≤ (write items).length := by
  have total := List.length_le_sum_of_one_le (items.map fun a => (write a).length) (by simpa using each)
  change _ ≤ (writeList write items).length
  rw [List.length_map] at total
  rw [writeList, List.length_append, List.length_flatMap]
  omega

theorem Wire.itemLength {α : Type} [Wire α] {items : List α} {a : α} (mem : a ∈ items) :
    (write a).length ≤ (write items).length := by
  have part := List.le_sum_of_mem (List.mem_map_of_mem (f := fun a : α => (write a).length) mem)
  change _ ≤ (writeList write items).length
  rw [writeList, List.length_append, List.length_flatMap]
  omega

theorem readsBackBytes {bytes : Bytes} (short : (write bytes).length < 2 ^ 64) : ReadsBack bytes :=
  readsBack_list (fun b _ => readsBack_byte b)
    (Nat.lt_of_le_of_lt (Wire.listLength fun _ _ => Nat.le_refl 1) short)

theorem readsBackEntries {entries : Entries} (short : (write entries).length < 2 ^ 64) :
    ReadsBack entries := by
  intro rest
  have each : ∀ p ∈ entries.pairs, ReadsBack p := by
    intro p mem
    have part : (write p.1 ++ write p.2).length ≤ (write entries).length := Wire.itemLength mem
    rw [List.length_append] at part
    exact readsBack_pair (readsBackBytes (by omega)) (readsBackBytes (by omega))
  have few : entries.pairs.length ≤ (write entries).length := by
    refine Wire.listLength fun p _ => ?_
    change 1 ≤ (writeVarint p.1.length ++ p.1.flatMap write ++ write p.2).length
    have := Wire.varintLength p.1.length
    rw [List.length_append, List.length_append]
    omega
  have pairs := readsBack_list each (Nat.lt_of_le_of_lt few short)
  exact (map_eq (pairs rest)).trans (by rw [Entries.ofPairs])

/-! The layers of a snapshot, each taken off by its reader. -/

namespace Snapshot
variable {codec : Codec} {level : CompressionLevel} {entries : Entries} {bytes : Bytes}

theorem payloadFramed {data : Bytes} (short : data.length < 0x100000000) : payload (framed data) = .ok data := by
  have shape : framed data =
      magic ++ (Bytes.ofNatLE 2 version ++ (Bytes.ofNatLE 4 data.length ++ (data ++ Digest.sha256 data))) := by
    simp only [framed, List.append_assoc]
  have total : (framed data).length = headerLength + data.length + digestLength := by
    rw [framed]
    simp only [List.length_append, Bytes.length_ofNatLE, Digest.length_sha256]
    rfl
  have long : ¬ (framed data).length < headerLength + digestLength := by omega
  have begins : (framed data).take 4 = magic := by
    rw [shape]
    rfl
  have known : Bytes.toNatLE (((framed data).drop 4).take 2) = version := by
    rw [shape]
    rfl
  have declared : Bytes.toNatLE (((framed data).drop 6).take 4) = data.length := by
    have field : Bytes.toNatLE (Bytes.ofNatLE 4 data.length) = data.length := Bytes.toNatLE_ofNatLE_of_lt short
    rw [shape]
    exact field
  have after : (framed data).drop headerLength = data ++ Digest.sha256 data := by
    rw [shape]
    rfl
  have digest : (framed data).drop (headerLength + data.length) = Digest.sha256 data := by
    rw [← List.drop_drop, after, List.drop_left]
  rw [payload, if_neg long, if_neg fun other => other begins, if_neg fun other => other known, declared,
    if_neg fun other => other total, after, List.take_left, digest, if_neg fun other => other rfl]
  rfl

theorem encodeShape (written : encode codec level entries = .ok bytes) :
    ∃ data, Packed.packWith codec level (write entries) = .ok data ∧ data.length < 0x100000000 ∧
      bytes = framed data := by
  cases packed : Packed.packWith codec level (write entries) with
  | error e =>
    rw [encode, packed] at written
    cases written
  | ok data =>
    rw [encode, packed] at written
    change (if 0x100000000 ≤ data.length then _ else _) = _ at written
    split at written
    · cases written
    · next short =>
      cases written
      exact ⟨data, rfl, Nat.not_le.1 short, rfl⟩

theorem decodeEncode (lossless : codec.Lossless) (written : encode codec level entries = .ok bytes) :
    decode codec bytes = .ok entries := by
  obtain ⟨data, packed, short, rfl⟩ := encodeShape written
  have few := Packed.packShort packed
  obtain ⟨frame, same, -, back⟩ := Packed.packBack lossless level few
  cases same.symm.trans packed
  have whole := readsBackEntries (Nat.lt_trans few (by decide)) []
  rw [List.append_nil] at whole
  simp only [decode, payloadFramed short, back, bind, Except.bind]
  rw [Wire.decode?, whole]
  rfl

theorem encodeShort (lossless : codec.Lossless) (level : CompressionLevel)
    (short : 5 + (write entries).length < 0x100000000) : ∃ bytes, encode codec level entries = .ok bytes := by
  have few : (write entries).length < 0x100000000 := by omega
  obtain ⟨frame, packed, length, -⟩ := Packed.packBack lossless level few
  refine ⟨framed frame, ?_⟩
  rw [encode, packed]
  exact if_neg (by omega)

end Snapshot

/-! What a save leaves on the disk. -/

namespace Site
open ExceptT

theorem endsGet {α : Type} {next : Site → StoreCall Site α} {site : Site} {done : α → Site → Prop}
    {failed : Site → Prop} (h : (next site).Ends site done failed) :
    (getThe Site >>= next : StoreCall Site α).Ends site done failed := endsBind h

theorem endsAttempt (call : DiskCall) (site : Site) :
    (attempt call).Ends site (fun _ after => after = site) fun after => after = site := by
  unfold attempt
  refine endsGet ?_
  cases site.refused call with
  | some kind => rfl
  | none => exact endsPure rfl

theorem endsCreateParent (site : Site) : createParent.Ends site
    (fun _ after => after.snapshot = site.snapshot) fun after => after.snapshot = site.snapshot := by
  unfold createParent
  refine endsBind ((endsAttempt .createParent site).weaken ?_ fun _ same => same ▸ rfl)
  rintro _ there rfl
  rfl

theorem endsWriteTemporary (bytes : Bytes) (site : Site) : (writeTemporary bytes).Ends site
    (fun _ after => after.temporary = .file bytes ∧ after.snapshot = site.snapshot)
    fun after => after.snapshot = site.snapshot := by
  unfold writeTemporary
  refine endsBind ((endsAttempt .writeTemporary site).weaken ?_ fun _ same => same ▸ rfl)
  rintro _ there rfl
  refine endsGet ?_
  split
  · rfl
  · split
    · rfl
    · exact ⟨rfl, rfl⟩

theorem endsRename (site : Site) : rename.Ends site
    (fun _ after => after.snapshot = site.temporary) fun after => after.snapshot = site.snapshot := by
  unfold rename
  refine endsBind ((endsAttempt .rename site).weaken ?_ fun _ same => same ▸ rfl)
  rintro _ there rfl
  refine endsGet ?_
  split
  · rfl
  · rfl

end Site

namespace FileStore
variable {codec : Codec} {level : CompressionLevel} {entries : Entries}

open ExceptT in
theorem endsSave (site : Site) : (saveWith codec level entries).Ends site (fun _ after => ∃ bytes,
    Snapshot.encode codec level entries = .ok bytes ∧ after.snapshot = .file bytes)
    fun after => after.snapshot = site.snapshot := by
  unfold saveWith
  cases written : Snapshot.encode codec level entries with
  | error e => rfl
  | ok bytes =>
    refine endsBind ((Site.endsCreateParent site).weaken ?_ fun _ => id)
    intro _ made kept
    refine endsBind ((Site.endsWriteTemporary bytes made).weaken ?_ fun _ same => same.trans kept)
    intro _ there ⟨temporary, kept'⟩
    refine (Site.endsRename there).weaken ?_ fun _ same => same.trans (kept'.trans kept)
    intro _ after renamed
    exact ⟨bytes, rfl, renamed.trans temporary⟩

theorem openThere {site : Site} {bytes : Bytes} (there : site.snapshot = .file bytes) :
    openWith codec level site = (Snapshot.decode codec bytes).map fun entries => ⟨level, entries, false⟩ := by
  rw [openWith, there]

theorem openedFile {site : Site} {bytes : Bytes} {store : FileStore} (there : site.snapshot = .file bytes)
    (opened : openWith codec level site = .ok store) :
    Snapshot.decode codec bytes = .ok store.entries ∧ store = ⟨level, store.entries, false⟩ := by
  rw [openThere there] at opened
  cases decoded : Snapshot.decode codec bytes with
  | error e =>
    rw [decoded] at opened
    cases opened
  | ok entries =>
    rw [decoded] at opened
    cases opened
    exact ⟨rfl, rfl⟩

theorem openSaved (lossless : codec.Lossless) {site after : Site}
    (saved : saveWith codec level entries site = (.ok (), after)) (reader : CompressionLevel) :
    openWith codec reader after = .ok ⟨reader, entries, false⟩ := by
  obtain ⟨bytes, written, there⟩ := (endsSave site).answered saved
  rw [openThere there, Snapshot.decodeEncode lossless written]
  rfl

end FileStore

/-- Snapshots read back. Data packed at any level is at most five bytes longer in its frame and
unpacks to itself; the bytes written of a dictionary give the dictionary again, and so does the
store that opens the saved file, whatever level it opens it with. -/
theorem snapshotRoundTrip (codec : Codec) (lossless : codec.Lossless) :
    (∀ level (data : Bytes), data.length < 0x100000000 →
      ∃ frame, Packed.packWith codec level data = .ok frame ∧ frame.length ≤ 5 + data.length ∧
        Packed.unpackWith codec frame = .ok data) ∧
    (∀ level entries, 5 + (write entries).length < 0x100000000 →
      ∃ bytes, Snapshot.encode codec level entries = .ok bytes) ∧
    (∀ level entries bytes, Snapshot.encode codec level entries = .ok bytes →
      Snapshot.decode codec bytes = .ok entries) ∧
    ∀ level entries site after, FileStore.saveWith codec level entries site = (.ok (), after) →
      ∀ reader, FileStore.openWith codec reader after = .ok ⟨reader, entries, false⟩ :=
  ⟨fun level _ short => Packed.packBack lossless level short,
    fun level _ short => Snapshot.encodeShort lossless level short,
    fun _ _ _ written => Snapshot.decodeEncode lossless written,
    fun _ _ _ _ saved => FileStore.openSaved lossless saved⟩

def twoEntries : Entries := .ofList [([], []), ([1], List.replicate 64 0x61)]

theorem zstdSnapshotRoundTrip : Codec.zstd.Lossless ∧
    (∃ frame, Packed.pack .maximum (List.replicate 64 0x61) = .ok frame ∧ frame.length ≤ 5 + 64 ∧
      Packed.unpack frame = .ok (List.replicate 64 0x61)) ∧
    ∃ bytes after, Snapshot.encode .zstd (.custom 99) twoEntries = .ok bytes ∧
      Snapshot.decode .zstd bytes = .ok twoEntries ∧
      FileStore.save (.custom 99) twoEntries .bare = (.ok (), after) ∧
      FileStore.openAt .off after = .ok ⟨.off, twoEntries, false⟩ := by
  obtain ⟨frames, written, decoded, opened⟩ := snapshotRoundTrip .zstd Codec.zstdLossless
  obtain ⟨bytes, encoded⟩ := written (.custom 99) twoEntries (by decide)
  have saved : FileStore.save (.custom 99) twoEntries .bare =
      (.ok (), { Site.bare with parent := true, snapshot := .file bytes, temporary := .absent }) := by
    change FileStore.saveWith .zstd (.custom 99) twoEntries .bare = _
    rw [FileStore.saveWith, encoded]
    rfl
  exact ⟨Codec.zstdLossless, frames .maximum (List.replicate 64 0x61) (by decide), bytes, _, encoded,
    decoded _ _ _ encoded, saved, opened _ _ _ _ saved .off⟩

end SymbolCatalog
