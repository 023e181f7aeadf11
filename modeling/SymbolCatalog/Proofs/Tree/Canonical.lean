import SymbolCatalog.Proofs.Tree.Agreement
import SymbolCatalog.Proofs.Tree.Order

/-! What a tree is like that was read, whatever bytes it was read from: its ids are in depth-first
order, only its arrays are variadic and all its lengths can be told. So it is the tree that its own
bytes decode to. -/
namespace SymbolCatalog
open ExceptT

structure TypeRef.Canonical (t : TypeRef) : Prop where
  sized : t.Sized
  array : t.varargs → 0 < t.depth

theorem TypeRef.Sized.settled {t : TypeRef} (h : t.Sized) : t.settled.Canonical where
  sized := ⟨h.text, h.few, h.annotations⟩
  array varargs := of_decide_eq_true (Bool.and_eq_true_iff.1 varargs).2

structure Payload.Canonical (p : Payload) : Prop where
  sized : p.fields.Sized
  arrays : ∀ type ∈ p.types, type.varargs → 0 < type.depth

namespace Record

theorem endsNameRead {kind : Kind} {name? : Option String} {table : NameTable} (short : ∀ text ∈ name?, Short text) :
    (requireName kind name?).Ends table (fun text _ => Short text) fun _ => True := by
  cases name? with
  | none => trivial
  | some name => exact short name rfl

theorem endsTypeRead {kind : Kind} {type? : Option TypeRef} {table : NameTable} (sized : ∀ t ∈ type?, t.Sized) :
    (requireType kind type?).Ends table (fun t _ => t.Canonical) fun _ => True := by
  cases type? with
  | none => trivial
  | some type => exact (sized type rfl).settled

theorem endsPayloadRead {f : RecordFields} (h : f.Sized) (table : NameTable) :
    (payload f).Ends table (fun p _ => p.Canonical) fun _ => True := by
  have none : ([] : List TypeRef).length < 2 ^ 64 := Nat.two_pow_pos 64
  have method : ∀ kind table, (do
      let name? ← f.name?.mapM internName
      let type ← requireType kind f.type?
      pure (Payload.method ⟨name?, ⟨f.flags⟩, type, f.default?⟩) : Interning Payload).Ends table
        (fun p _ => p.Canonical) fun _ => True := by
    intro kind table
    refine endsBind (endsInternName?.weaken (fun name? _ same => ?_) fun _ => False.elim)
    refine endsBind ((endsTypeRead h.type).weaken (fun type _ good => ?_) fun _ => id)
    subst same
    refine ⟨⟨h.name, ?_, none, nofun, none, nofun, h.default⟩, List.forall_mem_singleton.2 good.array⟩
    exact fun | _, rfl => good.sized
  unfold payload
  cases Kind.ofTag? f.kind with
  | none => trivial
  | some kind =>
    cases kind with
    | file =>
      refine endsMap (endsInternName?.weaken (fun name? _ same => ?_) fun _ => False.elim)
      subst same
      exact ⟨⟨h.name, nofun, none, nofun, none, nofun, nofun⟩, nofun⟩
    | classDecl =>
      refine endsBind ((endsNameRead h.name).weaken (fun name _ short => ?_) fun _ => id)
      refine ⟨⟨?_, nofun, none, nofun, none, nofun, nofun⟩, nofun⟩
      exact fun | _, rfl => short
    | field =>
      refine endsBind ((endsNameRead h.name).weaken (fun name _ short => ?_) fun _ => id)
      refine endsBind ((endsTypeRead h.type).weaken (fun type _ good => ?_) fun _ => id)
      refine ⟨⟨?_, ?_, none, nofun, none, nofun, h.default⟩, List.forall_mem_singleton.2 good.array⟩
      · exact fun | _, rfl => short
      · exact fun | _, rfl => good.sized
    | method =>
      dsimp only
      split
      · trivial
      · exact method .method table
    | annotationMethod =>
      dsimp only
      split
      · trivial
      · exact method .annotationMethod table
    | parameterList => exact ⟨⟨nofun, nofun, none, nofun, none, nofun, nofun⟩, nofun⟩
    | parameter =>
      refine endsBind (endsInternName?.weaken (fun name? _ same => ?_) fun _ => False.elim)
      refine endsBind ((endsTypeRead h.type).weaken (fun type _ good => ?_) fun _ => id)
      subst same
      refine ⟨⟨h.name, ?_, none, nofun, none, nofun, nofun⟩, List.forall_mem_singleton.2 good.array⟩
      exact fun | _, rfl => good.sized
    | modifierList => exact ⟨⟨nofun, nofun, h.annotated, h.annotations, none, nofun, nofun⟩, nofun⟩
    | throwsList =>
      refine endsMap ((endsMapM (fun t _ table => endsInternType) table).weaken ?_ fun _ => False.elim)
      intro types _ same
      subst same
      have few : (f.types.map (·.settled)).length < 2 ^ 64 := by
        rw [List.length_map]
        exact h.few
      have each : ∀ t ∈ f.types.map (·.settled), t.Canonical :=
        List.forall_mem_map.2 fun stored there => (h.types stored there).settled
      exact ⟨⟨nofun, nofun, none, nofun, few, fun t mem => (each t mem).sized, nofun⟩,
        fun t mem => (each t mem).array⟩

end Record

namespace Tree
variable {t : Tree}

structure Canonical (t : Tree) : Prop where
  compact : t.Compact
  payload : ∀ node ∈ t.nodes.toList, node.payload.Canonical

theorem Canonical.single {payload : Payload} (h : payload.Canonical) : (single payload).Canonical :=
  ⟨(singleCompact payload).1, singleNodes payload ▸ List.forall_mem_singleton.2 h⟩

theorem Canonical.grows {t' : Tree} {p id : NodeId} {payload : Payload} (canonical : t.Canonical)
    (isOpen : t.OpenAt p) (h : payload.Canonical) (added : t.addChild p payload = .ok (id, t')) : t'.Canonical := by
  refine ⟨(canonical.compact.grows added isOpen).1, ?_⟩
  rw [(addedNodes added).1]
  exact List.forall_mem_append.2 ⟨canonical.payload, List.forall_mem_singleton.2 h⟩

end Tree

namespace Record

def Grows (r : Record) : Prop :=
  ∀ (t : Tree) (parent : NodeId) (table : NameTable), t.Canonical → t.OpenAt parent →
    (attach t parent r).Ends table (fun t' _ => t'.Canonical ∧ t'.OpenAt parent ∧ t.Extends t') fun _ => True

theorem endsAttachAll {rs : List Record} (each : ∀ r ∈ rs, r.Grows) (t : Tree) (parent : NodeId)
    (table : NameTable) (canonical : t.Canonical) (isOpen : t.OpenAt parent) :
    (attachAll t parent rs).Ends table (fun t' _ => t'.Canonical ∧ t'.OpenAt parent ∧ t.Extends t')
      fun _ => True := by
  induction rs generalizing t table with
  | nil => exact endsPure ⟨canonical, isOpen, List.prefix_refl _⟩
  | cons r rest ih =>
    rw [attachAll]
    refine endsBind ((each r (.head _) t parent table canonical isOpen).weaken ?_ fun _ => id)
    intro t' table' ⟨canonical', isOpen', more⟩
    refine (ih (fun r mem => each r (.tail _ mem)) t' table' canonical' isOpen').weaken ?_ fun _ => id
    intro t'' _ ⟨canonical'', isOpen'', more'⟩
    exact ⟨canonical'', isOpen'', more.trans more'⟩

theorem Sized.grows {r : Record} (sized : r.Sized) : r.Grows := by
  induction sized with
  | mk fields children sized below ih =>
    intro t parent table canonical isOpen
    rw [attach]
    refine endsBind ((endsPayloadRead sized table).weaken (fun p table' good => ?_) fun _ => id)
    cases added : t.addChild parent p with
    | error e => trivial
    | ok result =>
      obtain ⟨id, t'⟩ := result
      have canonical' := canonical.grows isOpen good added
      have isOpen' := (canonical.compact.grows added isOpen).2.2
      -- Below the new node the tree is open at it, so in the end it is open at the parent again.
      refine (endsAttachAll ih t' id table' canonical' isOpen').weaken ?_ fun _ => fun h => h
      intro t'' _ ⟨canonical'', inside, more⟩
      refine ⟨canonical'', ?_, (Tree.addedExtends added).trans more⟩
      have up := Tree.addedParent added
      have parent' : t''.parent? id = some parent := (more.parent (Tree.childInTree up)).trans up
      have child : id ∈ t''.children parent := Tree.mem_children.2 ⟨Tree.childInTree parent', parent'⟩
      exact Tree.subtreeInside (Tree.childInside (t''.memSelf parent) child) inside

theorem endsTree {r : Record} (sized : r.Sized) (table : NameTable) :
    r.tree.Ends table (fun t _ => t.Canonical) fun _ => True := by
  cases sized with
  | mk fields children sized below =>
    rw [Record.tree]
    refine endsBind ((endsPayloadRead sized table).weaken (fun p table' good => ?_) fun _ => id)
    have start := Tree.singleCompact p
    refine (endsAttachAll (fun r mem => (below r mem).grows) _ .root table' (.single good) start.2).weaken ?_ fun _ => id
    exact fun t _ h => h.1

end Record

namespace Tree
variable {t : Tree} {bytes : Bytes} {table table' : NameTable}

theorem decodedCanonical (read : decode bytes table = (.ok t, table')) : t.Canonical := by
  obtain ⟨record, file, run⟩ := decodedFile read
  exact (Record.endsTree (Record.ofFileSized file) table).answered run

theorem Canonical.at (h : t.Canonical) {id : NodeId} {payload : Payload} (there : t.payload? id = some payload) :
    payload.Canonical := by
  obtain ⟨node, among, same⟩ := List.mem_map.1 (payloadAmong there)
  exact same ▸ h.payload node among

theorem Canonical.decodes (h : t.Canonical) (table : NameTable) : ∃ table', decode t.encode table = (.ok t, table') := by
  have settled : ∀ id payload, t.payload? id = some payload → payload.settled = payload :=
    fun id payload there => Payload.settledArrays (h.at there).arrays
  obtain ⟨copy, table', run, nodes⟩ := decodeWritten (fun id payload there => (h.at there).sized) table
  rw [(sameDecoded nodes settled).2 h.compact.inOrder] at run
  exact ⟨table', run⟩

theorem annotationMethodAt (t : Tree) (id : NodeId) :
    t.kind? id = some .annotationMethod ↔ ∃ m, t.method? id = some m ∧ m.flags.isAnnotationMethod := by
  unfold kind? method?
  cases t.payload? id with
  | none => simp
  | some payload =>
    cases payload <;> simp [Payload.kind]

/-- Whatever bytes a tree is read from, its ids are in depth-first order, only its arrays are variadic,
and the annotation methods in it are the methods with this flag. Its own bytes decode to it, whatever
names are known, so writing it once more gives the same bytes. -/
theorem decodedTreeCanonical (bytes : Bytes) (table table' : NameTable) (t : Tree)
    (read : decode bytes table = (.ok t, table')) :
    t.preorder.map (·.index) = List.range t.size ∧ t.ArrayVarargs ∧
    (∀ id, t.kind? id = some .annotationMethod ↔ ∃ m, t.method? id = some m ∧ m.flags.isAnnotationMethod) ∧
    ∀ known, ∃ copy known', decode t.encode known = (.ok copy, known') ∧ copy = t ∧ copy.encode = t.encode := by
  have canonical := decodedCanonical read
  refine ⟨?_, fun id payload there => (canonical.at there).arrays, t.annotationMethodAt, fun known => ?_⟩
  · rw [canonical.compact.inOrder, idsIndex]
  · obtain ⟨known', run⟩ := canonical.decodes known
    exact ⟨t, known', run, rfl, rfl⟩

def looseBytes : Bytes :=
  Record.magic ++ [1, 0] ++
    [0, 7, 1, 251, 1, 0, 112, 1, 1, 120, 0, 1, 251, 5, 0, 0, 0, 1] ++
    [4, 4, 0, 1, 1, 84, 0, 1, 252, 9, 0, 0, 0, 0, 0, 0, 0] ++
    [1, 1, 106]

theorem looseTreeCanonical : ∃ table' t, decode looseBytes .empty = (.ok t, table') ∧
    t.encode ≠ looseBytes ∧ t.preorder.map (·.index) = List.range t.size ∧ t.ArrayVarargs ∧
    (∀ id, t.kind? id = some .annotationMethod ↔ ∃ m, t.method? id = some m ∧ m.flags.isAnnotationMethod) ∧
    ∀ known, ∃ copy known', decode t.encode known = (.ok copy, known') ∧ copy = t ∧ copy.encode = t.encode := by
  have loose : ((decode looseBytes .empty).1.toOption.map encode).any (· ≠ looseBytes) := by decide +kernel
  cases read : decode looseBytes .empty with
  | mk answer table' =>
    rw [read] at loose
    cases answer with
    | error e => cases loose
    | ok t => exact ⟨table', t, rfl, of_decide_eq_true loose, decodedTreeCanonical looseBytes .empty table' t read⟩

end Tree
end SymbolCatalog
