import SymbolCatalog.NameIndex.Basic
import SymbolCatalog.Proofs.Tree.RoundTrip

/-! Which declarations a tree has, before and after it was written and read. -/
namespace SymbolCatalog

theorem Kind.indexedAmong (kind : Kind) :
    kind ∈ [.classDecl, .field, .method, .annotationMethod] ↔ kind.isIndexed := by
  cases kind <;> decide

namespace Tree
variable {t t' : Tree} {name : String} {id : NodeId}

def Declares (t : Tree) (name : String) (id : NodeId) : Prop :=
  ∃ payload, t.payload? id = some payload ∧ payload.kind.isIndexed ∧ payload.name? = some name

/- Whatever is declared at an id is declared by the node that depth-first order visits at this place. -/
def Steady (t : Tree) : Prop :=
  ∀ name id, t.Declares name id → ∃ other, t.Declares name other ∧ t.place other = id

structure Fits (t : Tree) : Prop where
  storable : t.Storable
  few : t.size < 2 ^ 32

theorem payloadInTree {payload : Payload} (there : t.payload? id = some payload) : id.index < t.size := by
  simp only [payload?, Option.map_eq_some_iff] at there
  obtain ⟨node, found, -⟩ := there
  exact Arena.inside_of_node? found

theorem Declares.inTree (h : t.Declares name id) : id.index < t.size := by
  obtain ⟨payload, there, -⟩ := h
  exact payloadInTree there

theorem memDeclarations : (name, id) ∈ t.declarations ↔ t.Declares name id := by
  unfold declarations
  rw [iterPreorder, List.mem_filterMap]
  constructor
  · intro h
    obtain ⟨other, mem, found⟩ := h
    obtain ⟨payload, there, found⟩ := Option.bind_eq_some_iff.1 found
    split at found
    · next indexed =>
      obtain ⟨text, named, same⟩ := Option.map_eq_some_iff.1 found
      cases same
      exact ⟨payload, there, indexed, named⟩
    · cases found
  · intro h
    obtain ⟨payload, there, indexed, named⟩ := h
    refine ⟨id, memPreorder.2 (payloadInTree there), ?_⟩
    rw [there, Option.bind_some, if_pos indexed, named]
    rfl

theorem declarationsFew (t : Tree) : t.declarations.length ≤ t.size := by
  rw [← preorderLength, ← iterPreorder]
  exact List.length_filterMap_le _ _

theorem Declares.named (h : t.Declares name id) :
    ∃ payload, t.payload? id = some payload ∧ name ∈ payload.texts := by
  obtain ⟨payload, there, indexed, named⟩ := h
  refine ⟨payload, there, ?_⟩
  cases payload with
  | classDecl | field | method | parameter => simp_all [Payload.name?, Payload.texts]
  | file | parameterList | modifierList | throwsList => simp [Payload.name?] at named

theorem Declares.short (storable : t.Storable) (h : t.Declares name id) : Short name := by
  obtain ⟨payload, there, among⟩ := h.named
  exact (storable id payload there).short name among

theorem declaresDecoded (nodes : t'.nodes.toList = t.preorder.map t.restored) :
    t'.Declares name id ↔ ∃ other, t.Declares name other ∧ t.place other = id := by
  constructor
  · intro h
    obtain ⟨payload, there, indexed, named⟩ := h
    have inside : id.index < t.size := sizeDecoded nodes ▸ payloadInTree there
    have mem : id ∈ t.preorder.map t.place := by
      rw [placeAll]
      exact mem_ids.2 inside
    obtain ⟨other, mem, same⟩ := List.mem_map.1 mem
    have inTree := memPreorder.1 mem
    rw [← same, payloadDecoded nodes inTree, payloadThere inTree] at there
    cases there
    rw [Payload.kindSettled] at indexed
    rw [Payload.nameSettled] at named
    exact ⟨other, ⟨_, payloadThere inTree, indexed, named⟩, same⟩
  · intro h
    obtain ⟨other, ⟨payload, there, indexed, named⟩, same⟩ := h
    refine ⟨payload.settled, ?_, ?_, ?_⟩
    · rw [← same, payloadDecoded nodes (payloadInTree there), there]
      rfl
    · rwa [Payload.kindSettled]
    · rwa [Payload.nameSettled]

end Tree
end SymbolCatalog
