import Mathlib.Data.List.Basic
import SymbolCatalog.TypeRef

/-! Type references and their texts. A text shows an element and the dimensions behind it; it is
read to these and written back, if they are no more than can be counted. -/
namespace SymbolCatalog

namespace Text

def Trimmed (cs : List Char) : Prop :=
  (∀ c ∈ cs.head?, isBlank c = false) ∧ ∀ c ∈ cs.getLast?, isBlank c = false

theorem dropsNone {cs : List Char} (front : ∀ c ∈ cs.head?, isBlank c = false) : cs.dropWhile isBlank = cs := by
  cases cs with
  | nil => rfl
  | cons c cs => rw [List.dropWhile_cons_of_neg (by simpa using front c rfl)]

theorem trimSame {cs : List Char} (trimmed : Trimmed cs) : trim cs = cs := by
  obtain ⟨front, back⟩ := trimmed
  rw [← List.head?_reverse] at back
  unfold trim trimEnd
  rw [dropsNone front, dropsNone back, List.reverse_reverse]

theorem Trimmed.append {cs more : List Char} (trimmed : Trimmed cs) (visible : ∀ c ∈ more, isBlank c = false) :
    Trimmed (cs ++ more) := by
  constructor
  · intro c first
    cases cs with
    | nil => exact visible c (List.mem_of_mem_head? first)
    | cons a cs => exact trimmed.1 c first
  · intro c last
    cases more with
    | nil => exact trimmed.2 c (by simpa using last)
    | cons b more => exact visible c (List.mem_of_mem_getLast? (by simpa using last))

end Text

namespace TypeRef
variable {text element rest : List Char} {brackets : Nat} {varargs : Bool}

def bracketChars (brackets : Nat) : List Char := (List.replicate brackets ['[', ']']).flatten

def dimensionChars (brackets : Nat) (varargs : Bool) : List Char :=
  bracketChars brackets ++ if varargs then ['.', '.', '.'] else []

structure Shows (text element : List Char) (brackets : Nat) (varargs : Bool) : Prop where
  written : text = element ++ dimensionChars brackets varargs
  dots : varargs ↔ ['.', '.', '.'] <:+ text
  all : ¬ ['[', ']'] <:+ element

theorem bracketsMore (brackets : Nat) : bracketChars (brackets + 1) = bracketChars brackets ++ ['[', ']'] := by
  simp [bracketChars, List.replicate_succ']

theorem showsBrackets (body : List Char) :
    ∃ element brackets, body = element ++ bracketChars brackets ∧ ¬ ['[', ']'] <:+ element := by
  -- Brackets go from the end, so the length of the text bounds how often.
  induction size : body.length using Nat.strongRecOn generalizing body with
  | ind size ih =>
    by_cases more : ['[', ']'] <:+ body
    · obtain ⟨before, same⟩ := more
      subst same
      obtain ⟨element, brackets, shown, all⟩ := ih before.length (by simp at size; omega) before rfl
      refine ⟨element, brackets + 1, ?_, all⟩
      rw [bracketsMore, ← List.append_assoc, ← shown]
    · exact ⟨body, 0, by simp [bracketChars], more⟩

theorem showsSome (text : List Char) : ∃ element brackets varargs, Shows text element brackets varargs := by
  by_cases dots : ['.', '.', '.'] <:+ text
  · obtain ⟨body, same⟩ := dots
    obtain ⟨element, brackets, shown, all⟩ := showsBrackets body
    refine ⟨element, brackets, true, ?_, by simp [← same], all⟩
    rw [← same, shown, dimensionChars, if_pos rfl, List.append_assoc]
  · obtain ⟨element, brackets, shown, all⟩ := showsBrackets text
    exact ⟨element, brackets, false, by simpa [dimensionChars] using shown, by simpa using dots, all⟩

/-! Reading counts the brackets from the end. -/

theorem deeperCounts (depth : UInt8) : (deeper depth).toNat = min 255 (depth.toNat + 1) := by
  have bound := depth.toNat_lt
  unfold deeper
  split
  · next most =>
    subst most
    rfl
  · next fewer =>
    have other : depth.toNat ≠ 255 := fun same => fewer (UInt8.toNat_inj.mp same)
    rw [UInt8.toNat_add]
    change (depth.toNat + 1) % 256 = _
    omega

theorem takeBracketsAll (depth : UInt8) (brackets : Nat) (stop : ¬ [']', '['] <+: rest) :
    takeBrackets depth ((bracketChars brackets).reverse ++ rest) =
      (UInt8.ofNat (min 255 (depth.toNat + brackets)), rest) := by
  induction brackets generalizing depth with
  | zero =>
    have bound := depth.toNat_lt
    have same : min 255 (depth.toNat + 0) = depth.toNat := by omega
    have none : (bracketChars 0).reverse ++ rest = rest := rfl
    rw [same, none, UInt8.ofNat_toNat]
    unfold takeBrackets
    split
    · exact absurd ⟨_, rfl⟩ stop
    · rfl
  | succ brackets ih =>
    have first : (bracketChars (brackets + 1)).reverse = ']' :: '[' :: (bracketChars brackets).reverse := by
      simp [bracketsMore]
    have count : min 255 (min 255 (depth.toNat + 1) + brackets) = min 255 (depth.toNat + (brackets + 1)) := by omega
    rw [first, List.cons_append, List.cons_append, takeBrackets, ih, deeperCounts, count]

def ofParsed (varargs : Bool) (taken : UInt8 × List Char) : TypeRef :=
  ⟨String.ofList taken.2.reverse, taken.1, varargs, []⟩

theorem ofTextDotted {rendered : String} {back : List Char}
    (reversed : (Text.trim rendered.toList).reverse = '.' :: '.' :: '.' :: back) :
    ofText rendered = ofParsed true (takeBrackets 1 back) := by
  unfold ofText
  rw [reversed]
  rfl

theorem ofTextUndotted {rendered : String} (undotted : ¬ ['.', '.', '.'] <:+ Text.trim rendered.toList) :
    ofText rendered = ofParsed false (takeBrackets 0 (Text.trim rendered.toList).reverse) := by
  rw [← List.reverse_prefix] at undotted
  unfold ofText
  dsimp only
  split
  · next reversed => exact absurd ⟨_, reversed.symm⟩ undotted
  · rfl

theorem ofTextShown {rendered : String} (shows : Shows (Text.trim rendered.toList) element brackets varargs) :
    ofText rendered = ⟨String.ofList element, UInt8.ofNat (min 255 (brackets + varargs.toNat)), varargs, []⟩ := by
  have stop : ¬ [']', '['] <+: element.reverse := fun h => shows.all (List.reverse_prefix.mp h)
  cases varargs with
  | true =>
    have back : (Text.trim rendered.toList).reverse =
        '.' :: '.' :: '.' :: ((bracketChars brackets).reverse ++ element.reverse) := by
      rw [shows.written]
      simp [dimensionChars]
    rw [ofTextDotted back, takeBracketsAll 1 brackets stop, ofParsed, List.reverse_reverse, Nat.add_comm brackets]
    rfl
  | false =>
    have back : (Text.trim rendered.toList).reverse = (bracketChars brackets).reverse ++ element.reverse := by
      rw [shows.written]
      simp [dimensionChars]
    rw [ofTextUndotted (mt shows.dots.mpr Bool.false_ne_true), back, takeBracketsAll 0 brackets stop, ofParsed,
      List.reverse_reverse]
    simp

/-! Writing puts the dimensions back. -/

theorem depthCounted (count : Nat) : (UInt8.ofNat (min 255 count)).toNat = min 255 count :=
  UInt8.toNat_ofNat_of_lt' (by change _ < 256; omega)

theorem renderPlain {t : TypeRef} (plain : t.annotations = []) :
    t.render.toList = t.text.toList ++ dimensionChars t.brackets t.varargs := by
  unfold render dimensionChars bracketChars
  cases t.varargs <;> simp [plain, String.toList_join, List.flatMap_replicate]

theorem dimensionsEqual {brackets' : Nat} :
    dimensionChars brackets varargs = dimensionChars brackets' varargs ↔ brackets = brackets' := by
  constructor
  · intro same
    have length := congrArg List.length same
    simp [dimensionChars, bracketChars] at length
    omega
  · exact congrArg (dimensionChars · varargs)

theorem ofTextRendered {rendered : String} (shows : Shows (Text.trim rendered.toList) element brackets varargs) :
    (ofText rendered).render.toList = Text.trim rendered.toList ↔ brackets + varargs.toNat ≤ 255 := by
  have plain : (ofText rendered).annotations = [] := rfl
  rw [renderPlain plain, ofTextShown shows, shows.written, String.toList_ofList, List.append_cancel_left_eq,
    dimensionsEqual, TypeRef.brackets]
  dsimp only
  rw [depthCounted]
  cases varargs with
  | true =>
    rw [if_pos rfl, Bool.toNat_true]
    omega
  | false =>
    rw [if_neg Bool.false_ne_true, Bool.toNat_false]
    omega

theorem dimensionsVisible : ∀ c ∈ dimensionChars brackets varargs, Text.isBlank c = false := by
  intro c mem
  have sign : c = '[' ∨ c = ']' ∨ c = '.' := by
    unfold dimensionChars bracketChars at mem
    cases varargs <;> simp at mem <;> tauto
  obtain rfl | rfl | rfl := sign <;> decide

theorem dotsWritten (undotted : ¬ ['.', '.', '.'] <:+ element) :
    varargs ↔ ['.', '.', '.'] <:+ element ++ dimensionChars brackets varargs := by
  cases varargs with
  | true => simp [dimensionChars, ← List.append_assoc]
  | false =>
    cases brackets with
    | zero => simpa [dimensionChars, bracketChars] using undotted
    | succ brackets =>
      -- behind the last bracket there are no dots
      rw [← List.reverse_prefix]
      simp [dimensionChars, bracketsMore]

theorem rendersShown {t : TypeRef} (plain : t.annotations = []) (trimmed : Text.Trimmed t.text.toList)
    (bare : ¬ ['[', ']'] <:+ t.text.toList) (undotted : ¬ ['.', '.', '.'] <:+ t.text.toList) :
    Shows (Text.trim t.render.toList) t.text.toList t.brackets t.varargs := by
  rw [renderPlain plain, Text.trimSame (trimmed.append dimensionsVisible)]
  exact ⟨rfl, dotsWritten undotted, bare⟩

theorem bracketsCount {t : TypeRef} (arrays : t.varargs → 0 < t.depth) :
    t.brackets + t.varargs.toNat = t.depth.toNat := by
  unfold TypeRef.brackets
  cases varargs : t.varargs with
  | true =>
    have array : 0 < t.depth.toNat := UInt8.lt_iff_toNat_lt.mp (arrays varargs)
    rw [if_pos rfl, Bool.toNat_true]
    omega
  | false => rfl

theorem ofTextRender {t : TypeRef} (plain : t.annotations = []) (arrays : t.varargs → 0 < t.depth)
    (trimmed : Text.Trimmed t.text.toList) (bare : ¬ ['[', ']'] <:+ t.text.toList)
    (undotted : ¬ ['.', '.', '.'] <:+ t.text.toList) : ofText t.render = t := by
  have bound := t.depth.toNat_lt
  have count : min 255 t.depth.toNat = t.depth.toNat := by omega
  rw [ofTextShown (rendersShown plain trimmed bare undotted), bracketsCount arrays, count, UInt8.ofNat_toNat,
    String.ofList_toList, ← plain]

/-- A text is written back from what is read of it, without the white space around it, exactly if it shows
no more than 255 dimensions, three dots at its end among them. A type without annotations that is variadic
only as an array is read back from its text, if its element neither has white space at an end nor ends
with brackets or three dots. -/
theorem typeTextsReadBack :
    (∀ rendered : String,
      (∃ element brackets varargs, Shows (Text.trim rendered.toList) element brackets varargs) ∧
      ∀ element brackets varargs, Shows (Text.trim rendered.toList) element brackets varargs →
        ((ofText rendered).render.toList = Text.trim rendered.toList ↔ brackets + varargs.toNat ≤ 255)) ∧
    ∀ t : TypeRef, t.annotations = [] → (t.varargs → 0 < t.depth) → Text.Trimmed t.text.toList →
      ¬ ['[', ']'] <:+ t.text.toList → ¬ ['.', '.', '.'] <:+ t.text.toList → ofText t.render = t := by
  refine ⟨fun rendered => ⟨showsSome _, fun element brackets varargs shows => ofTextRendered shows⟩, ?_⟩
  intro t plain arrays trimmed bare undotted
  exact ofTextRender plain arrays trimmed bare undotted

theorem dottedTextReadBack :
    (let long := String.ofList ('x' :: dimensionChars 255 true)
    Shows (Text.trim long.toList) ['x'] 255 true ∧ (ofText long).render.toList ≠ Text.trim long.toList) ∧
    let t : TypeRef := ⟨"a..", 255, true, []⟩
    t.annotations = [] ∧ (t.varargs → 0 < t.depth) ∧ Text.Trimmed t.text.toList ∧
      ¬ ['[', ']'] <:+ t.text.toList ∧ ¬ ['.', '.', '.'] <:+ t.text.toList ∧ ofText t.render = t := by
  constructor
  · intro long
    have visible : Text.isBlank 'x' = false := by decide
    have ends : Text.Trimmed (['x'] ++ dimensionChars 255 true) :=
      Text.Trimmed.append (by simp [Text.Trimmed, visible]) dimensionsVisible
    have shows : Shows (Text.trim long.toList) ['x'] 255 true := by
      rw [String.toList_ofList, ← List.singleton_append, Text.trimSame ends]
      exact ⟨rfl, dotsWritten (by decide), by decide⟩
    exact ⟨shows, mt ((typeTextsReadBack.1 long).2 _ _ _ shows).mp (by decide)⟩
  · intro t
    have visible : Text.isBlank 'a' = false ∧ Text.isBlank '.' = false := by decide
    have trimmed : Text.Trimmed t.text.toList := by simp [Text.Trimmed, t, visible]
    exact ⟨rfl, by decide, trimmed, by decide, by decide,
      typeTextsReadBack.2 t rfl (by decide) trimmed (by decide) (by decide)⟩

end TypeRef
end SymbolCatalog
