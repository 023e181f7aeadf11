import SymbolCatalog.Tree.MethodView

/-! The parameters of a method, one by one and all together. A child of the list that is no
parameter is a fault when it is asked for, and passed over when all are. -/
namespace SymbolCatalog.MethodView
variable {v : MethodView} {list id : NodeId}

theorem parameterAtSome {p : ParameterView} :
    v.parameterAt? id = some p ↔ p.id = id ∧ v.tree.payload? id = some (.parameter p.name? p.type) := by
  unfold parameterAt?
  constructor
  · intro there
    split at there
    · next payload =>
      cases there
      exact ⟨rfl, payload⟩
    · cases there
  · rintro ⟨rfl, payload⟩
    rw [payload]

theorem parameterAtNone : v.parameterAt? id = none ↔ v.tree.kind? id ≠ some .parameter := by
  unfold parameterAt? Tree.kind?
  cases v.tree.payload? id with
  | none => simp
  | some payload =>
    cases payload with
    | method m => by_cases annotation : m.flags.isAnnotationMethod <;> simp [Payload.kind, annotation]
    | _ => simp [Payload.kind]

/-! What the two give where there is a parameter list. -/

theorem parameterListed (listed : v.tree.findChild? v.id .parameterList = some list) (i : Nat) :
    v.parameter i = match (v.tree.children list)[i]? with
      | none => .error (.outOfRange i (v.tree.children list).length)
      | some id => match v.parameterAt? id with
        | some p => .ok p
        | none => .error (.notAParameter id) := by
  unfold parameter parameterIds
  rw [listed]
  change (match (v.tree.children list)[i]? with | none => _ | some _ => _) = _
  cases (v.tree.children list)[i]? with
  | none => rfl
  | some id =>
    dsimp only
    cases v.parameterAt? id <;> rfl

theorem parametersListed (listed : v.tree.findChild? v.id .parameterList = some list) :
    v.parameters = .ok ((v.tree.children list).filterMap v.parameterAt?) := by
  unfold parameters parameterIds
  rw [listed]
  rfl

structure Tells (v : MethodView) (ids : List NodeId) (ps : List ParameterView) : Prop where
  all : v.parameters = .ok ps
  order : ps.map (·.id) = ids.filter (v.tree.kind? · = some .parameter)
  carried : ∀ p ∈ ps, v.tree.payload? p.id = some (.parameter p.name? p.type)
  one : ∀ i, ∀ p ∈ ps, ids[i]? = some p.id → v.parameter i = .ok p
  foreign : ∀ i id, ids[i]? = some id → v.tree.kind? id ≠ some .parameter → v.parameter i = .error (.notAParameter id)
  beyond : ∀ i, ids.length ≤ i → v.parameter i = .error (.outOfRange i ids.length)

theorem orderOfParameters (v : MethodView) (ids : List NodeId) :
    (ids.filterMap v.parameterAt?).map (·.id) = ids.filter (v.tree.kind? · = some .parameter) := by
  induction ids with
  | nil => rfl
  | cons id ids ih =>
    cases there : v.parameterAt? id with
    | none =>
      rw [List.filterMap_cons_none there, ih, List.filter_cons_of_neg (by simpa using parameterAtNone.1 there)]
    | some p =>
      have kind : v.tree.kind? id = some .parameter := by
        rw [Tree.kind?, (parameterAtSome.1 there).2]
        rfl
      rw [List.filterMap_cons_some there, List.map_cons, ih, List.filter_cons_of_pos (by simpa using kind),
        (parameterAtSome.1 there).1]

theorem tellsListed (listed : v.tree.findChild? v.id .parameterList = some list) :
    v.Tells (v.tree.children list) ((v.tree.children list).filterMap v.parameterAt?) where
  all := parametersListed listed
  order := v.orderOfParameters _
  carried p mem := by
    obtain ⟨id, -, there⟩ := List.mem_filterMap.1 mem
    obtain ⟨rfl, payload⟩ := parameterAtSome.1 there
    exact payload
  one i p mem nth := by
    obtain ⟨id, -, there⟩ := List.mem_filterMap.1 mem
    obtain ⟨rfl, -⟩ := parameterAtSome.1 there
    rw [parameterListed listed, nth]
    dsimp only
    rw [there]
  foreign i id nth other := by
    rw [parameterListed listed, nth]
    dsimp only
    rw [parameterAtNone.2 other]
  beyond i behind := by rw [parameterListed listed, List.getElem?_eq_none behind]

def AccessorsAgree (v : MethodView) : Prop :=
  ((∀ i, v.parameter i = .error (.noParameterList v.id)) ∧ v.parameters = .error (.noParameterList v.id)) ∨
  ∃ ps, v.parameters = .ok ps ∧ ∀ i, v.parameter i = match ps[i]? with
    | some p => .ok p
    | none => .error (.outOfRange i ps.length)

theorem Tells.agree {ids : List NodeId} {ps : List ParameterView} (tells : v.Tells ids ps)
    (parameters : ∀ id ∈ ids, v.tree.kind? id = some .parameter) : v.AccessorsAgree := by
  have same : ps.map (·.id) = ids := by
    rw [tells.order, List.filter_eq_self]
    simpa using parameters
  have count : ps.length = ids.length := by rw [← same, List.length_map]
  refine .inr ⟨ps, tells.all, fun i => ?_⟩
  cases nth : ps[i]? with
  | some p =>
    refine tells.one i p (List.mem_of_getElem? nth) ?_
    rw [← same, List.getElem?_map, nth]
    rfl
  | none =>
    rw [count]
    exact tells.beyond i (count ▸ List.getElem?_eq_none_iff.1 nth)

theorem Tells.disagree {ids : List NodeId} {ps : List ParameterView} (tells : v.Tells ids ps) (mem : id ∈ ids)
    (other : v.tree.kind? id ≠ some .parameter) : ¬ v.AccessorsAgree := by
  rintro (⟨-, none⟩ | ⟨ps', -, each⟩)
  · cases none.symm.trans tells.all
  · obtain ⟨i, nth⟩ := List.getElem?_of_mem mem
    have told := each i
    rw [tells.foreign i id nth other] at told
    split at told
    · cases told
    · cases told

/-- Where a method has no parameter list both accessors say so. Else the children of its first list
tell what both give: all the parameters among them, and at a position the parameter there, another
node as a fault, or nothing behind the last. A position gives what stands at this place among all
parameters exactly where every child is one. -/
theorem parametersAccessed (v : MethodView) :
    (v.tree.findChild? v.id .parameterList = none ∧ (∀ i, v.parameter i = .error (.noParameterList v.id)) ∧
      v.parameters = .error (.noParameterList v.id)) ∨
    ∃ list ps, v.tree.findChild? v.id .parameterList = some list ∧ v.Tells (v.tree.children list) ps ∧
      (v.AccessorsAgree ↔ ∀ id ∈ v.tree.children list, v.tree.kind? id = some .parameter) := by
  cases listed : v.tree.findChild? v.id .parameterList with
  | none =>
    refine .inl ⟨rfl, fun i => ?_, ?_⟩
    · unfold parameter parameterIds
      rw [listed]
      rfl
    · unfold parameters parameterIds
      rw [listed]
      rfl
  | some list =>
    have tells := tellsListed listed
    refine .inr ⟨list, _, rfl, tells, fun agree id mem => ?_, tells.agree⟩
    exact Decidable.byContradiction fun other => tells.disagree mem other agree

def strayClass : Except Tree.GrowError MethodView := do
  let method : Method := ⟨some "m", ⟨0⟩, .void, none⟩
  let (id, t) ← (Tree.ofFile none).addChild .root (.method method)
  let (list, t) ← t.addChild id .parameterList
  let (_, t) ← t.addChild list (.classDecl "A" 0)
  pure ⟨t, id, method⟩

theorem strayClassDisagrees : ∃ v, strayClass = .ok v ∧ v.parameters = .ok [] ∧
    v.parameter 0 = .error (.notAParameter ⟨3⟩) ∧ ¬ v.AccessorsAgree := by
  refine ⟨_, rfl, rfl, rfl, ?_⟩
  rintro (⟨-, none⟩ | ⟨ps, all, each⟩)
  · cases none
  · cases all
    cases each 0

end SymbolCatalog.MethodView
