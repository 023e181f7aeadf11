import Mathlib.Data.List.Induction
import SymbolCatalog.Proofs.Tree.Declarations
import SymbolCatalog.Proofs.TypeRef.Text

/-! Where the variadic mark of a type reference comes from, and when it is stored. Every change but
one keeps it to arrays. -/
namespace SymbolCatalog

namespace TypeRef

inductive Origin where
  | name (text : String)
  | void
  | rendered (text : String)
  deriving DecidableEq, Repr

def Origin.made : Origin → TypeRef
  | name text => ofName text
  | void => TypeRef.void
  | rendered text => ofText text

inductive Change where
  | depth (depth : UInt8)
  | varargs
  | annotate (names : List String)
  deriving DecidableEq, Repr

def Change.Annotates : Change → Prop
  | annotate _ => True
  | _ => False

def change (t : TypeRef) : Change → TypeRef
  | .depth depth => t.withDepth depth
  | .varargs => t.asVarargs
  | .annotate names => t.annotate names

def changed (t : TypeRef) (changes : List Change) : TypeRef := changes.foldl change t

def Stranded (t : TypeRef) : Prop := t.varargs ∧ t.depth = 0

/- The last change, annotations aside, takes the dimensions of a variadic reference away. -/
def Strips (t : TypeRef) (changes : List Change) : Prop :=
  ∃ before after, changes = before ++ .depth 0 :: after ∧ (t.changed before).varargs ∧ ∀ c ∈ after, c.Annotates

theorem arrayUnlessStranded {t : TypeRef} : (t.varargs → 0 < t.depth) ↔ ¬ t.Stranded := by
  simp [Stranded, UInt8.pos_iff_ne_zero]

theorem Origin.madeArray (origin : Origin) : ¬ origin.made.Stranded := by
  cases origin with
  | name text => simp [Stranded, Origin.made, ofName]
  | void => simp [Stranded, Origin.made, TypeRef.void, ofName]
  | rendered text =>
    rintro ⟨variadic, none⟩
    obtain ⟨element, brackets, varargs, shows⟩ := showsSome (Text.trim text.toList)
    have read : (Origin.rendered text).made = _ := ofTextShown shows
    rw [read] at variadic none
    have count := congrArg UInt8.toNat none
    rw [depthCounted, show varargs = true from variadic, Bool.toNat_true, UInt8.toNat_zero] at count
    omega

theorem changeStranded (t : TypeRef) (c : Change) :
    (t.change c).Stranded ↔ c = .depth 0 ∧ t.varargs ∨ c.Annotates ∧ t.Stranded := by
  cases c with
  | depth depth => simp [change, withDepth, Stranded, Change.Annotates, and_comm]
  | varargs => simp [change, asVarargs, Stranded, Change.Annotates, UInt8.pos_iff_ne_zero]
  | annotate names => simp [change, annotate, Stranded, Change.Annotates]

theorem changedLast (t : TypeRef) (changes : List Change) (c : Change) :
    t.changed (changes ++ [c]) = (t.changed changes).change c := by
  simp [changed]

theorem stripsLast {t : TypeRef} {changes : List Change} {c : Change} :
    t.Strips (changes ++ [c]) ↔ c = .depth 0 ∧ (t.changed changes).varargs ∨ c.Annotates ∧ t.Strips changes := by
  constructor
  · rintro ⟨before, after, same, variadic, plain⟩
    rcases List.eq_nil_or_concat' after with rfl | ⟨after, last, rfl⟩
    · obtain ⟨rfl, last⟩ := List.append_inj' same rfl
      exact .inl ⟨List.singleton_inj.1 last, variadic⟩
    · rw [← List.cons_append, ← List.append_assoc] at same
      obtain ⟨rfl, last⟩ := List.append_inj' same rfl
      cases last
      obtain ⟨plain, annotates⟩ := List.forall_mem_append.1 plain
      exact .inr ⟨annotates c List.mem_cons_self, before, after, rfl, variadic, plain⟩
  · rintro (⟨rfl, variadic⟩ | ⟨annotates, before, after, rfl, variadic, plain⟩)
    · exact ⟨changes, [], rfl, variadic, nofun⟩
    · exact ⟨before, after ++ [c], by simp, variadic,
        List.forall_mem_append.2 ⟨plain, List.forall_mem_singleton.2 annotates⟩⟩

theorem changedStranded {t : TypeRef} (array : ¬ t.Stranded) (changes : List Change) :
    (t.changed changes).Stranded ↔ t.Strips changes := by
  -- From the last change back: the last one that is no annotation decides.
  induction changes using List.reverseRecOn with
  | nil =>
    have unchanged : ¬ t.Strips [] := fun ⟨before, after, same, _⟩ => by simp at same
    exact iff_of_false array unchanged
  | append_singleton changes c ih => rw [changedLast, changeStranded, stripsLast, ih]

theorem settledKeeps (t : TypeRef) :
    t.settled = { t with varargs := t.settled.varargs } ∧ (t.settled.varargs = t.varargs ↔ ¬ t.Stranded) := by
  refine ⟨rfl, ?_⟩
  rw [← arrayUnlessStranded]
  simp [settled, ofParts]

end TypeRef

theorem Payload.typesSettled (p : Payload) : p.settled.types = p.types.map (·.settled) := by
  cases p <;> rfl

theorem Tree.typesDecoded {t : Tree} (storable : t.Storable) (table : NameTable) :
    ∃ t' table', decode t.encode table = (.ok t', table') ∧
      ∀ id payload, t.payload? id = some payload →
        ∃ payload', t'.payload? (t.place id) = some payload' ∧ payload'.types = payload.types.map (·.settled) := by
  obtain ⟨t', table', run, nodes⟩ := decodeEncoded storable table
  refine ⟨t', table', run, fun id payload there => ⟨payload.settled, ?_, payload.typesSettled⟩⟩
  rw [payloadDecoded nodes (payloadInTree there), there]
  rfl

namespace TypeRef

/-- A reference to a type, however it is made and changed, is variadic only as an array exactly unless the
last change of it, annotations aside, took the dimensions of a variadic reference away. It is read back from
the bytes of any tree it stands in as it was but for the variadic mark, and with this mark exactly unless
that happened. -/
theorem variadicUnlessStripped (origin : Origin) (changes : List Change) :
    let type := origin.made.changed changes
    ((type.varargs → 0 < type.depth) ↔ ¬ origin.made.Strips changes) ∧
    ∀ (t : Tree) (table : NameTable), t.Storable →
      ∃ t' table', Tree.decode t.encode table = (.ok t', table') ∧
        ∀ id payload (i : Nat), t.payload? id = some payload → payload.types[i]? = some type →
          ∃ payload', ∃ type' : TypeRef, t'.payload? (t.place id) = some payload' ∧ payload'.types[i]? = some type' ∧
            type' = { type with varargs := type'.varargs } ∧
            (type'.varargs = type.varargs ↔ ¬ origin.made.Strips changes) := by
  intro type
  have stranded : type.Stranded ↔ origin.made.Strips changes := changedStranded origin.madeArray changes
  rw [← stranded]
  refine ⟨arrayUnlessStranded, fun t table storable => ?_⟩
  obtain ⟨t', table', run, types⟩ := Tree.typesDecoded storable table
  refine ⟨t', table', run, fun id payload i there listed => ?_⟩
  obtain ⟨payload', found, same⟩ := types id payload there
  have position : payload'.types[i]? = some type.settled := by simp [same, listed]
  exact ⟨payload', type.settled, found, position, type.settledKeeps⟩

def inField (type : TypeRef) : Tree := (Tree.ofFile none).grown [(⟨0⟩, .field "x" type 0 none)]

theorem strippedFieldStored :
    let origin := Origin.rendered "int..."
    let type := origin.made.changed [.depth 0, .annotate ["N"]]
    ¬ origin.made.Strips [.depth 0, .annotate ["N"], .depth 2] ∧ origin.made.Strips [.depth 0, .annotate ["N"]] ∧
      type.inField.Storable ∧ type.inField.payload? ⟨1⟩ = some (.field "x" type 0 none) ∧
      ∃ t' table', Tree.decode type.inField.encode .empty = (.ok t', table') ∧
        ∃ payload', ∃ type' : TypeRef, t'.payload? (type.inField.place ⟨1⟩) = some payload' ∧
          payload'.types[0]? = some type' ∧ type' = { type with varargs := type'.varargs } ∧
          type'.varargs ≠ type.varargs := by
  intro origin type
  have regained : ¬ origin.made.Strips [.depth 0, .annotate ["N"], .depth 2] :=
    (variadicUnlessStripped origin _).1.1 (by decide +kernel)
  have stripped : origin.made.Strips [.depth 0, .annotate ["N"]] :=
    ⟨[], [.annotate ["N"]], rfl, by decide +kernel, List.forall_mem_singleton.2 trivial⟩
  have storable : type.inField.Storable := Tree.storableAll (by decide +kernel)
  have there : type.inField.payload? ⟨1⟩ = some (.field "x" type 0 none) := by decide +kernel
  obtain ⟨t', table', run, types⟩ := (variadicUnlessStripped origin _).2 type.inField .empty storable
  obtain ⟨payload', type', found, position, same, kept⟩ := types ⟨1⟩ _ 0 there rfl
  exact ⟨regained, stripped, storable, there, t', table', run, payload', type', found, position, same,
    fun unchanged => kept.1 unchanged stripped⟩

theorem strippedStaysVariadic :
    let type := (Origin.rendered "int...").made.changed [.depth 0]
    ¬ (type.varargs → 0 < type.depth) ∧ type.render = "int..." := by
  decide +kernel

end TypeRef
end SymbolCatalog
