import Mathlib.Data.List.Chain
import SymbolCatalog.Proofs.Signature.Reading
import SymbolCatalog.Signature.Generic

/-! The grammar of generic signatures, as a condition on their syntax. What the syntax cannot hold
anyway, such as empty brackets or more than 255 dimensions, is no part of the condition. -/
namespace SymbolCatalog.Signature

def Ty.IsReference : Ty → Prop
  | .primitive depth _ => depth ≠ 0
  | .variable _ _ | .classType _ _ => True

def Ty.IsThrown : Ty → Prop
  | .primitive _ _ => False
  | .variable depth _ | .classType depth _ => depth = 0

mutual

def Ty.WellFormed : Ty → Prop
  | .primitive _ _ => True
  | .variable _ name => Named false name.toList
  | .classType _ type => type.WellFormed true

def ClassTy.WellFormed (slashes : Bool) : ClassTy → Prop
  | .last name args => Named slashes name.toList ∧ args.WellFormed
  | .outer name args inner => Named slashes name.toList ∧ args.WellFormed ∧ inner.WellFormed false

def Args.WellFormed : Args → Prop
  | .nil => True
  | .any rest => rest.WellFormed
  | .typed _ type rest => (type.WellFormed ∧ type.IsReference) ∧ rest.WellFormed

end

structure TypeParameter.WellFormed (p : TypeParameter) : Prop where
  name : Named false p.name.toList
  bounds : ∀ bound ∈ p.bounds, bound.WellFormed ∧ bound.IsReference

/- After a parameter without bounds, these letters would begin its class bound. -/
def TypeParameter.Separate (p q : TypeParameter) : Prop :=
  p.bounds = [] → q.name.toList.head? ≠ some 'L' ∧ q.name.toList.head? ≠ some 'T'

structure MethodSignature.WellFormed (s : MethodSignature) : Prop where
  typeParameters : ∀ p ∈ s.typeParameters, p.WellFormed
  separate : s.typeParameters.IsChain TypeParameter.Separate
  parameters : ∀ t ∈ s.parameters, t.WellFormed
  result : ∀ t ∈ s.result?, t.WellFormed
  throwsTypes : ∀ t ∈ s.throwsTypes, t.WellFormed ∧ t.IsThrown

/-! What written types begin with. -/

theorem bracketCharsZero : bracketChars 0 = [] := rfl

theorem bracketCharsCons {depth : UInt8} (h : depth ≠ 0) : ∃ more, bracketChars depth = '[' :: more := by
  unfold bracketChars
  cases count : depth.toNat with
  | zero => exact absurd (UInt8.toNat_inj.mp count) h
  | succ count => exact ⟨_, rfl⟩

theorem tagLetter (p : Primitive) : p.tag ≠ '[' ∧ p.tag ≠ 'L' ∧ p.tag ≠ 'T' ∧ p.tag ≠ 'V' ∧ p.tag ≠ ')' := by
  cases p <;> decide

def Ty.elementChars : Ty → List Char
  | .primitive _ p => [p.tag]
  | .variable _ name => 'T' :: (name.toList ++ [';'])
  | .classType _ type => 'L' :: type.chars

theorem Ty.charsElement (t : Ty) : t.chars = bracketChars t.depth ++ t.elementChars := by
  cases t with
  | primitive depth p => rw [Ty.chars]; rfl
  | «variable» depth name => rw [Ty.chars]; rfl
  | classType depth type => rw [Ty.chars]; rfl

theorem Ty.charsFront (t : Ty) : ∃ x more, t.chars = x :: more ∧ (x ≠ 'V' ∧ x ≠ ')') ∧
    (t.IsReference ↔ x = '[' ∨ x = 'L' ∨ x = 'T') ∧ (t.IsThrown ↔ x = 'L' ∨ x = 'T') := by
  rw [t.charsElement]
  by_cases flat : t.depth = 0
  · rw [flat, bracketCharsZero, List.nil_append]
    cases t with
    | primitive depth p =>
      obtain ⟨bracket, letter, letter', notVoid⟩ := tagLetter p
      refine ⟨_, _, rfl, notVoid, ?_⟩
      simp [Ty.IsReference, Ty.IsThrown, bracket, letter, letter', show depth = 0 from flat]
    | «variable» depth name =>
      refine ⟨_, _, rfl, by decide, ?_⟩
      simp [Ty.IsReference, Ty.IsThrown, show depth = 0 from flat]
    | classType depth type =>
      refine ⟨_, _, rfl, by decide, ?_⟩
      simp [Ty.IsReference, Ty.IsThrown, show depth = 0 from flat]
  · obtain ⟨more, brackets⟩ := bracketCharsCons flat
    rw [brackets]
    refine ⟨_, _, rfl, by decide, ?_⟩
    cases t with
    | primitive depth p => simp [Ty.IsReference, Ty.IsThrown, show depth ≠ 0 from flat]
    | «variable» depth name => simp [Ty.IsReference, Ty.IsThrown, show depth ≠ 0 from flat]
    | classType depth type => simp [Ty.IsReference, Ty.IsThrown, show depth ≠ 0 from flat]

theorem Ty.charsLength (t : Ty) : 0 < t.chars.length := by
  obtain ⟨x, more, front, _⟩ := t.charsFront
  rw [front, List.length_cons]
  omega

theorem Cursor.Over.headOfType {t : Ty} {c after : Cursor} (h : c.Over t.chars after) :
    ∃ x, c.rest.head? = some x ∧ (x ≠ 'V' ∧ x ≠ ')') ∧
      (t.IsReference ↔ x = '[' ∨ x = 'L' ∨ x = 'T') ∧ (t.IsThrown ↔ x = 'L' ∨ x = 'T') := by
  obtain ⟨x, more, front, letters⟩ := t.charsFront
  rw [front] at h
  exact ⟨x, h.head, letters⟩

theorem Args.typedFront {variance : Variance} {type : Ty} {rest : Args} (h : type.IsReference) :
    ∃ x more, (Args.typed variance type rest).itemChars = x :: more ∧ x ≠ '>' ∧ x ≠ '*' ∧
      (variance = .exact → x ≠ '+' ∧ x ≠ '-') := by
  rw [Args.itemChars]
  cases variance with
  | covariant => exact ⟨_, _, rfl, by decide⟩
  | contravariant => exact ⟨_, _, rfl, by decide⟩
  | exact =>
    obtain ⟨x, more, front, _, reference, _⟩ := type.charsFront
    have letters := reference.mp h
    rw [front]
    refine ⟨x, more ++ rest.itemChars, rfl, ?_⟩
    obtain rfl | rfl | rfl := letters <;> decide

theorem Args.itemFront {args : Args} (wellFormed : args.WellFormed) (given : args ≠ .nil) :
    ∃ x more, args.itemChars = x :: more ∧ x ≠ '>' := by
  cases args with
  | nil => exact absurd rfl given
  | any rest =>
    rw [Args.itemChars]
    exact ⟨_, _, rfl, by decide⟩
  | typed variance type rest =>
    rw [Args.WellFormed] at wellFormed
    obtain ⟨x, more, front, other, _⟩ := Args.typedFront wellFormed.1.2
    exact ⟨x, more, front, other⟩

theorem Args.listCharsCons {args : Args} (h : args ≠ .nil) : args.listChars = '<' :: (args.itemChars ++ ['>']) := by
  cases args with
  | nil => exact absurd rfl h
  | any rest => rw [Args.listChars, Args.itemChars, List.cons_append]
  | typed variance type rest => rw [Args.listChars, Args.itemChars]

theorem ClassTy.charsLength (type : ClassTy) : 0 < type.chars.length := by
  cases type with
  | last name args =>
    rw [ClassTy.chars, List.length_append, List.length_singleton]
    omega
  | outer name args inner =>
    rw [ClassTy.chars, List.length_append, List.length_cons]
    omega

theorem TypeParameter.WellFormed.front {p : TypeParameter} (h : p.WellFormed) :
    ∃ x more, p.chars = x :: more ∧ p.name.toList.head? = some x ∧ x ∉ reserved := by
  obtain ⟨nonempty, named⟩ := h.name
  unfold TypeParameter.chars
  cases name : p.name.toList with
  | nil => exact absurd name nonempty
  | cons x more =>
    refine ⟨x, _, rfl, rfl, ?_⟩
    intro isReserved
    rw [name] at named
    cases (named x List.mem_cons_self isReserved).2

theorem TypeParameter.charsLength (p : TypeParameter) : 0 < p.chars.length := by
  rw [TypeParameter.chars, List.length_append, List.length_cons]
  omega

end SymbolCatalog.Signature
