import SymbolCatalog.Proofs.Tree.Canonical

/-! The two versions of the stored form, compared. The first has no annotations of types; a record
in it is read as the one that has none. -/
namespace SymbolCatalog
open Wire

def TypeRef.bare (t : TypeRef) : TypeRef := { t with annotations := [] }

namespace RecordFields

def bare (f : RecordFields) : RecordFields :=
  { f with type? := f.type?.map TypeRef.bare, types := f.types.map TypeRef.bare }

end RecordFields

namespace Record

theorem readTypeBare {t : TypeRef} (short : Short t.text) (rest : Bytes) :
    readType .one (writeType .one t ++ rest) = .ok (t.bare, rest) := by
  unfold readType writeType
  simp only [List.append_assoc]
  rw [bind_eq (readsBackText short _), bind_eq (readsBack_byte _ _), bind_eq (readsBack_bool _ _)]
  rfl

end Record

theorem RecordFields.Sized.codedBare {f : RecordFields} (h : f.bare.Sized) : f.bare.Coded .one where
  name := h.coded.name
  type t mem rest := by
    obtain ⟨full, -, same⟩ := Option.map_eq_some_iff.1 mem
    have read := Record.readTypeBare (h.type t mem).text rest
    subst same
    exact read
  annotations := h.coded.annotations
  few := h.few
  types t mem rest := by
    obtain ⟨full, -, same⟩ := List.mem_map.1 mem
    have read := Record.readTypeBare (h.types t mem).text rest
    subst same
    exact read
  default := h.coded.default

namespace Record

mutual

def bare : Record → Record
  | .mk fields children => .mk fields.bare (bareAll children)

def bareAll : List Record → List Record
  | [] => []
  | r :: rest => bare r :: bareAll rest

end

inductive Tellable : Record → Prop where
  | mk (fields : RecordFields) (children : List Record) (sized : fields.Sized) (few : children.length < 2 ^ 64)
      (below : ∀ r ∈ children, Tellable r) : Tellable (.mk fields children)

theorem Tellable.coded {r : Record} (h : r.Tellable) : r.Coded .two := by
  induction h with
  | mk fields children sized few below ih => exact .mk _ _ sized.coded few ih

theorem writeHeadBare (f : RecordFields) : writeHead .one f.bare = writeHead .one f := by
  obtain ⟨kind, flags, name?, type?, mask, annotations, types, default?⟩ := f
  have list : writeList (writeType .one) (types.map TypeRef.bare) = writeList (writeType .one) types := by
    unfold writeList
    rw [List.length_map, List.flatMap_map]
    rfl
  unfold writeHead RecordFields.bare
  dsimp only
  rw [list]
  cases type? <;> rfl

theorem bareAllLength (rs : List Record) : (bareAll rs).length = rs.length := by
  induction rs with
  | nil => rfl
  | cons r rest ih => rw [bareAll, List.length_cons, List.length_cons, ih]

mutual

theorem encodeBare : (r : Record) → r.bare.encode .one = r.encode .one
  | .mk fields children => by
    rw [bare, encode, encode, writeHeadBare, bareAllLength, encodeAllBare children]
    rfl

theorem encodeAllBare : (rs : List Record) → encodeAll .one (bareAll rs) = encodeAll .one rs
  | [] => rfl
  | r :: rest => by rw [bareAll, encodeAll, encodeAll, encodeBare r, encodeAllBare rest]

end

mutual

theorem codedBare : (r : Record) → r.bare.Tellable → r.bare.Coded .one
  | .mk fields children, .mk _ _ sized few below =>
    .mk _ _ sized.codedBare few (codedAllBare children below)

theorem codedAllBare : (rs : List Record) → (∀ r ∈ bareAll rs, r.Tellable) → ∀ r ∈ bareAll rs, r.Coded .one
  | [], _ => nofun
  | r :: rest, each => by
    obtain ⟨first, others⟩ := List.forall_mem_cons.1 each
    exact List.forall_mem_cons.2 ⟨codedBare r first, codedAllBare rest others⟩

end

end Record

namespace Tree

theorem decodeRecord {v : RecordVersion} {r : Record} (coded : r.Coded v) (table : NameTable) :
    decode (r.toFile v) table = r.tree.run table := by
  unfold decode
  rw [Record.ofFileWritten coded]

/-- Whatever a record says, written in the first version or, without annotations of types, in the second,
it decodes to the same tree or is refused for the same fault, and either is told by the record alone. A
tree it decodes to is written in the second version and decodes to itself from there. -/
theorem versionsDecodeAlike {r : Record} (tellable : r.bare.Tellable) (table : NameTable) :
    decode (r.toFile .one) table = decode (r.bare.toFile .two) table ∧
      decode (r.toFile .one) table = r.bare.tree.run table ∧
      ∀ t table', decode (r.toFile .one) table = (.ok t, table') →
        Record.readVersion t.encode = .ok 2 ∧ ∀ known, ∃ known', decode t.encode known = (.ok t, known') := by
  have file : r.toFile .one = r.bare.toFile .one := by
    unfold Record.toFile
    rw [Record.encodeBare]
  have first := decodeRecord (Record.codedBare r tellable) table
  have second := decodeRecord tellable.coded table
  rw [← file] at first
  refine ⟨first.trans second.symm, first, fun t table' read => ?_⟩
  exact ⟨Record.readVersionWritten .two _, (decodedCanonical read).decodes⟩

def earlyRecord : Record :=
  .mk { kind := 0, name? := some "legacy" }
    [.mk { kind := 3, flags := 2, name? := some "join", type? := some ⟨"java.lang.String", 0, false, []⟩ }
      [.mk { kind := 5 } [.mk { kind := 6, name? := some "parts", type? := some ⟨"java.lang.String", 1, true, []⟩ } []]]]

theorem earlyRecordUpgraded : earlyRecord.bare.Tellable ∧
    ∃ t table', decode (earlyRecord.toFile .one) .empty = (.ok t, table') ∧
      decode (earlyRecord.bare.toFile .two) .empty = (.ok t, table') ∧ Record.readVersion t.encode = .ok 2 ∧
      ∀ known, ∃ known', decode t.encode known = (.ok t, known') := by
  have tellable : earlyRecord.bare.Tellable := by
    refine .mk _ _ (RecordFields.sized (by decide +kernel)) (by decide) (List.forall_mem_singleton.2 ?_)
    refine .mk _ _ (RecordFields.sized (by decide +kernel)) (by decide) (List.forall_mem_singleton.2 ?_)
    refine .mk _ _ (RecordFields.sized (by decide +kernel)) (by decide) (List.forall_mem_singleton.2 ?_)
    exact .mk _ _ (RecordFields.sized (by decide +kernel)) (by decide) fun r none => absurd none List.not_mem_nil
  obtain ⟨alike, -, again⟩ := versionsDecodeAlike tellable .empty
  have succeeds : (decode (earlyRecord.toFile .one) .empty).1.isOk := by decide +kernel
  cases read : decode (earlyRecord.toFile .one) .empty with
  | mk answer table' =>
    rw [read] at succeeds
    cases answer with
    | error fault => cases succeeds
    | ok t => exact ⟨tellable, t, table', rfl, alike.symm.trans read, again t table' read⟩

end Tree
end SymbolCatalog
