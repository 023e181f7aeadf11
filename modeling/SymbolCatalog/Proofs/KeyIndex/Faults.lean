import SymbolCatalog.Proofs.KeyIndex.Attempts

/-! An index over a store whose calls may fail at any time, and one whose store never fails and
which is given only the operations that succeeded. All that occurs is held, so what was read in
between does not count. -/
namespace SymbolCatalog.KeyIndex
open ExceptT StoreCall
variable {K V σ : Type} [DecidableEq K] [DecidableEq V]

structure Recall (K V : Type) where
  files : Contents K V
  held : K → Occurrences V

namespace Recall

def blank : Recall K V := ⟨.none, fun _ => .empty⟩

def put (m : Recall K V) (file : FileId) (entries : List (K × V)) : Recall K V :=
  ⟨m.files.put file entries, fun key => (m.held key).exchange file (valuesOf entries key)⟩

def step (m : Recall K V) : Op K V → Recall K V
  | .update file entries => m.put file entries
  | .removeFile file => m.put file []
  | .clear => blank
  | .reopen _ | .get _ | .visit .. | .flush => m

def run (m : Recall K V) (ops : List (Op K V)) : Recall K V := ops.foldl step m

abbrev Answers (m : Recall K V) : Op K V → Answer K V → Prop := Judged m.files fun key c => c = m.held key

def AnswersAll (m : Recall K V) : List (Op K V × Answer K V) → Prop
  | [] => True
  | (op, answer) :: rest => m.Answers op answer ∧ (m.step op).AnswersAll rest

def Whole (m : Recall K V) : Prop := ∀ key, Shows (m.held key) m.files key

omit [DecidableEq K] [DecidableEq V] in
theorem wholeBlank : (blank : Recall K V).Whole :=
  fun _ _ _ => iff_of_false Occurrences.memEmpty List.not_mem_nil

theorem Whole.put {m : Recall K V} (whole : m.Whole) (file : FileId) (entries : List (K × V)) :
    (m.put file entries).Whole := by
  intro key f value
  change _ ∈ ((m.held key).exchange file (valuesOf entries key)).pairs ↔ (key, value) ∈ m.files.put file entries f
  rw [Occurrences.memExchange, memValuesOf, whole key f value]
  by_cases same : f = file
  · subst same
    simp [Contents.putSame]
  · simp [Contents.putOther same, same]

theorem Whole.step {m : Recall K V} (whole : m.Whole) (op : Op K V) : (m.step op).Whole := by
  cases op with
  | update file entries => exact whole.put file entries
  | removeFile file => exact whole.put file []
  | clear => exact wholeBlank
  | _ => exact whole

theorem stepLedger {m : Recall K V} {l : Ledger K V} (same : l.files = m.files) {op : Op K V}
    (kind : op.isSteady ∨ op = .clear) : (l.step op).files = (m.step op).files := by
  cases op with
  | reopen => cases kind <;> contradiction
  | update file entries => exact congrArg (·.put file entries) same
  | removeFile file => exact congrArg (·.put file []) same
  | clear => rfl
  | _ => exact same

theorem runLedger {m : Recall K V} {l : Ledger K V} (same : l.files = m.files) {ops : List (Op K V)}
    (kind : ∀ op ∈ ops, op.isSteady ∨ op = .clear) : (l.run ops).files = (m.run ops).files := by
  induction ops generalizing m l with
  | nil => exact same
  | cons op ops ih => exact ih (stepLedger same (kind op (.head _))) fun op mem => kind op (.tail _ mem)

omit [DecidableEq K] [DecidableEq V] in
theorem Answers.ledger {m : Recall K V} (whole : m.Whole) {op : Op K V} {answer : Answer K V}
    (h : m.Answers op answer) {l : Ledger K V} (same : l.files = m.files) : l.Answers op answer := by
  cases h with
  | removed file => simp [Ledger.Answers, same]
  | found right =>
    subst right
    refine ⟨Occurrences.pairsNodup _, fun file value => ?_⟩
    rw [whole _ file value, same]
  | visited goesOn shown => exact ⟨_, same ▸ shown, rfl⟩
  | _ => trivial

theorem AnswersAll.ledger {m : Recall K V} (whole : m.Whole) {pairs : List (Op K V × Answer K V)}
    (h : m.AnswersAll pairs) (kind : ∀ p ∈ pairs, p.1.isSteady ∨ p.1 = .clear) {l : Ledger K V}
    (same : l.files = m.files) :
    l.AnswersAll (pairs.map (·.1)) (pairs.map (·.2)) := by
  induction pairs generalizing m l with
  | nil => trivial
  | cons p pairs ih =>
    refine ⟨h.1.ledger whole same, ih (whole.step p.1) h.2 (fun q mem => kind q (.tail _ mem)) ?_⟩
    exact stepLedger same (kind p (.head _))

end Recall

variable [Wire K] [Wire V] {store : Store σ} {view : σ → Entries} {fails : Prop} {version : UInt32}
  {given : List (K × V)}

structure Remembers (view : σ → Entries) (version : UInt32) (given : List (K × V))
    (state : KeyIndex K V × σ) (m : Recall K V) : Prop where
  holds : Holds state.1 (view state.2) m.files
  version : state.1.version = version
  held : ∀ key, state.1.held key = m.held key
  whole : m.Whole
  among : m.files.Among given

theorem Remembers.told {state : KeyIndex K V × σ} {m : Recall K V}
    (h : Remembers view version given state m) (key : K) : m.files.account.Shows (state.1.held key) key := by
  rw [h.held]
  exact h.whole key

theorem Reads.remembers {before after : KeyIndex K V × σ} {m : Recall K V}
    (r : Reads view before after m.files.account) (h : Remembers view version given before m) :
    Remembers view version given after m where
  holds := r.holds h.holds
  version := r.version.trans h.version
  held key := (r.same h.told key).trans (h.held key)
  whole := h.whole
  among := h.among

theorem Writes.remembers {before after : KeyIndex K V × σ} {m : Recall K V}
    (w : Writes view before after m.files.account) (h : Remembers view version given before m) :
    Remembers view version given after m where
  holds := w.holds h.holds
  version := w.version.trans h.version
  held key := by
    rw [← h.held key]
    unfold KeyIndex.held
    rw [w.containers]
  whole := h.whole
  among := h.among

theorem Replaces.remembers {before after : KeyIndex K V × σ} {m : Recall K V} {file : FileId}
    {entries : List (K × V)} (r : Replaces view before after m.files.account file entries)
    (h : Remembers view version given before m) (drawn : ∀ p ∈ entries, p ∈ given) :
    Remembers view version given after (m.put file entries) where
  holds := r.holds h.holds
  version := r.version.trans h.version
  held key := by
    rw [r.held h.told (fun _ value mem => ⟨value, mem⟩) key, h.held]
    rfl
  whole := h.whole.put file entries
  among := h.among.put file drawn

theorem remembersBlank {state : KeyIndex K V × σ} (index : state.1 = empty version)
    (entries : view state.2 = Entries.empty.insert versionKey (stamp version)) :
    Remembers view version given state .blank where
  holds := by
    rw [index, entries]
    exact freshStored version
  version := by
    rw [index]
    rfl
  held key := by
    rw [index]
    rfl
  whole := Recall.wholeBlank
  among := Contents.amongNone given

theorem endsRecall (follows : store.Follows view fails) (tellable : Tellable given)
    {state : KeyIndex K V × σ} {m : Recall K V} (h : Remembers view version given state m) {op : Op K V}
    (steady : op.isSteady ∨ op = .clear) (draws : op.Draws given) : (perform store op).Ends state
      (fun answer after => m.Answers op answer ∧ Remembers view version given after (m.step op))
      fun after => fails ∧ (op.isSteady → Remembers view version given after m) := by
  have tells := h.holds.tells
  have fits := h.among.fits tellable.few
  obtain ⟨index, s⟩ := state
  cases op with
  | reopen => cases steady <;> contradiction
  | update file entries =>
    have coded : ∀ p ∈ entries, Wire.ReadsBack p.1 ∧ Wire.ReadsBack p.2 := fun p hp => tellable.coded p (draws p hp)
    refine endsBind ((tells.endsUpdate follows file coded).weaken ?_ fun _ ⟨may, r⟩ => ⟨may, fun _ => r.remembers h⟩)
    exact fun _ after r => endsPure ⟨.updated file entries, r.remembers h draws⟩
  | removeFile file =>
    refine endsMap ((endsRemoveFile follows h.holds file).weaken ?_ fun _ ⟨may, r⟩ => ⟨may, fun _ => r.remembers h⟩)
    intro had after ⟨r, told⟩
    subst told
    exact ⟨.removed file, r.remembers h (by simp)⟩
  | get key =>
    refine endsMap ((tells.endsGet follows draws).weaken ?_ fun _ ⟨may, r⟩ => ⟨may, fun _ => r.remembers h⟩)
    intro c after ⟨_, found, r⟩
    have after' := r.remembers h
    exact ⟨.found (found.trans (after'.held key)), after'⟩
  | visit scope accepts goesOn =>
    refine (tells.endsShown follows scope accepts goesOn).weaken ?_ ?_
    · intro answer ⟨index', s'⟩ ⟨kept, same, all, shown, noted⟩
      cases kept
      subst noted
      exact ⟨.visited goesOn shown, (readsNothing tells same).remembers h⟩
    · intro ⟨index', s'⟩ ⟨may, kept, same⟩
      cases kept
      exact ⟨may, fun _ => (readsNothing tells same).remembers h⟩
  | flush =>
    refine endsBind ((endsFlush follows h.holds fits).weaken ?_ fun _ ⟨may, w⟩ => ⟨may, fun _ => w.remembers h⟩)
    exact fun _ after ⟨w, _⟩ => endsPure ⟨.flushed, w.remembers h⟩
  | clear =>
    refine endsBind ((endsClear follows index s).weaken ?_ fun _ ⟨may, _⟩ => ⟨may, nofun⟩)
    intro _ after ⟨blank, entries⟩
    have version : index.version = version := h.version
    rw [version] at blank entries
    exact endsPure ⟨.cleared, remembersBlank blank entries⟩

theorem attemptRemembers (follows : store.Follows view fails) (tellable : Tellable given)
    {state after : KeyIndex K V × σ} {m : Recall K V} (h : Remembers view version given state m) {op : Op K V}
    {event : Event K V} (attempted : attempt store op state = (event, after)) (draws : op.Draws given)
    (steady : event.Steady) : event.op = op ∧ match event.answer with
      | .ok answer => m.Answers op answer ∧ Remembers view version given after (m.step op)
      | .error _ => event.seen = [] ∧ Remembers view version given after m := by
  obtain ⟨event, attempted', rfl, answered, shown⟩ := attemptPerforms store op state
  cases attempted.symm.trans attempted'
  refine ⟨rfl, ?_⟩
  have ends := endsRecall follows tellable h (steady.imp id And.left) draws
  rcases run : perform store event.op state with ⟨e | answer, after⟩
  · rw [run] at answered
    have failed : event.answer.toOption = none := by
      rw [answered]
      rfl
    rw [answered]
    exact ⟨shown failed, (ends.stopped run).2 (steady.resolve_right fun clear => by simp [failed] at clear)⟩
  · rw [run] at answered
    rw [answered]
    exact ends.answered run

theorem attemptsRemember (follows : store.Follows view fails) (tellable : Tellable given) {ops : List (Op K V)}
    {state last : KeyIndex K V × σ} {m : Recall K V} (h : Remembers view version given state m)
    {events : List (Event K V)} (ran : attemptAll store ops state = (events, last))
    (draws : ∀ op ∈ ops, op.Draws given) (steady : ∀ event ∈ events, event.Steady) :
    (∀ event ∈ events, event.answer.toOption = none → event.seen = []) ∧
      m.AnswersAll (succeeded events) ∧
      Remembers view version given last (m.run ((succeeded events).map (·.1))) := by
  induction ops generalizing state m events with
  | nil =>
    cases ran
    exact ⟨fun _ mem => absurd mem List.not_mem_nil, trivial, h⟩
  | cons op ops ih =>
    rcases attempted : attempt store op state with ⟨event, after⟩
    rcases later : attemptAll store ops after with ⟨events', last'⟩
    rw [attemptAllCons attempted, later] at ran
    cases ran
    obtain ⟨rfl, told⟩ := attemptRemembers follows tellable h attempted (draws op (.head _)) (steady event (.head _))
    have draws := fun op mem => draws op (.tail _ mem)
    have steady := fun event mem => steady event (.tail _ mem)
    cases answered : event.answer with
    | error e =>
      rw [answered] at told
      obtain ⟨quiet, right, last⟩ := ih told.2 later draws steady
      rw [succeededError answered]
      exact ⟨List.forall_mem_cons.2 ⟨fun _ => told.1, quiet⟩, right, last⟩
    | ok answer =>
      rw [answered] at told
      obtain ⟨quiet, right, last⟩ := ih told.2 later draws steady
      have loud : event.answer.toOption = none → event.seen = [] := by simp [answered, Except.toOption]
      rw [succeededOk answered]
      exact ⟨List.forall_mem_cons.2 ⟨loud, quiet⟩, ⟨told.1, right⟩, last⟩

theorem endsMirror (follows : store.Follows view False) (tellable : Tellable given)
    {mirror : KeyIndex K V × σ} {m : Recall K V} (h : Remembers view version given mirror m)
    {pairs : List (Op K V × Answer K V)} (right : m.AnswersAll pairs)
    (steady : ∀ p ∈ pairs, (p.1.isSteady ∨ p.1 = .clear) ∧ p.1.Draws given) :
    ((pairs.map (·.1)).mapM (perform store)).Ends mirror
      (fun answers _ => AgreeAll Eq (pairs.map (·.1)) (pairs.map (·.2)) answers) fun _ => False := by
  induction pairs generalizing mirror m with
  | nil => exact endsPure .nil
  | cons p pairs ih =>
    obtain ⟨kind, draws⟩ := steady p (.head _)
    rw [List.map_cons, List.mapM_cons]
    refine endsBind ((endsRecall follows tellable h kind draws).weaken ?_ fun _ no => no.1)
    intro answer mirror' ⟨first, h'⟩
    refine endsBind ((ih h' right.2 fun p mem => steady p (.tail _ mem)).weaken ?_ fun _ => id)
    exact fun answers _ rest => endsPure (.cons (right.1.agree (fun _ _ _ one other => one.trans other.symm) first) rest)

theorem endsOpenBlank (follows : store.Follows view fails) (version : UInt32) {s : σ} (new : view s = .empty)
    (given : List (K × V)) : (openOn store version : StoreCall σ (KeyIndex K V)).Ends s
      (fun index s' => Remembers view version given (index, s') .blank)
      fun _ => fails := by
  refine (endsOpen follows version s).weaken ?_ fun _ no => no.1
  intro index s' ⟨blank, entries⟩
  rw [new, if_neg (by simp [Entries.getEmpty])] at entries
  exact remembersBlank blank entries

/-- An index on an empty store whose calls may fail at any time: a visit that fails has shown nothing,
and the operations that succeed give the answers that an index in memory gives to them alone. -/
theorem faultsHidden (follows : store.Follows view True) (tellable : Tellable given) {s s' : σ}
    (new : view s = .empty) {index : KeyIndex K V} (opened : openOn store version s = (.ok index, s'))
    {ops : List (Op K V)} (steady : ∀ op ∈ ops, op.isSteady ∧ op.Draws given) {events : List (Event K V)}
    {last : KeyIndex K V × σ} (ran : attemptAll store ops (index, s') = (events, last)) :
    events.map (·.op) = ops ∧
    (∀ event ∈ events, event.answer.toOption = none → event.seen = []) ∧
    ∃ answers entries,
      session memoryStore version ((succeeded events).map (·.1)) .empty = (.ok answers, entries) ∧
      AgreeAll Eq ((succeeded events).map (·.1)) ((succeeded events).map (·.2)) answers ∧
      (Ledger.opened version).AnswersAll ((succeeded events).map (·.1)) ((succeeded events).map (·.2)) := by
  have all := attemptAllOps store ops (index, s')
  rw [ran] at all
  have start := (endsOpenBlank follows version new given).answered opened
  have known : ∀ event ∈ events, event.op.isSteady ∧ event.op.Draws given :=
    fun event mem => steady event.op (all ▸ List.mem_map_of_mem mem)
  obtain ⟨quiet, right, -⟩ := attemptsRemember follows tellable start ran (fun op mem => (steady op mem).2)
    fun event mem => .inl (known event mem).1
  have drawn : ∀ p ∈ succeeded events, (p.1.isSteady ∨ p.1 = .clear) ∧ p.1.Draws given := by
    intro p mem
    obtain ⟨event, there, same⟩ := memSucceeded mem
    rw [← same]
    exact ⟨.inl (known event there).1, (known event there).2⟩
  have mirrored : (session memoryStore version ((succeeded events).map (·.1))).Ends .empty
      (fun answers _ => AgreeAll Eq ((succeeded events).map (·.1)) ((succeeded events).map (·.2)) answers)
      fun _ => False := by
    refine endsBind ((endsOpenBlank memoryFollows version rfl given).weaken ?_ fun _ => id)
    intro index entries blank
    exact endsLasting (endsMirror memoryFollows tellable blank right drawn)
  obtain ⟨answers, entries, run, agree⟩ := mirrored.succeeds
  exact ⟨all, quiet, answers, entries, run, agree, right.ledger Recall.wholeBlank (fun p mem => (drawn p mem).1) rfl⟩

def sampleProbe : Probe :=
  ⟨fun kind place? => kind = .keys ∨ (kind = .put ∧ place?.any (Bytes.startsWith · fileFamily)) ∨
    place? = some (containerKey (9 : UInt32)), []⟩

def sampleAttempts : List (Op UInt32 UInt32) :=
  [.update ⟨1⟩ [(7, 70)], .update ⟨2⟩ [(7, 71), (9, 90)], .flush, .get 7,
    .visit (fun _ => true) (fun _ => true) (fun _ => true), .removeFile ⟨1⟩, .get 9, .get 7]

def sampleOpened : KeyIndex UInt32 UInt32 × Probe × Entries :=
  (empty 1, ⟨sampleProbe.fails, [.put, .clear, .get]⟩, Entries.empty.insert versionKey (stamp 1))

theorem sampleFaultsHidden :
    openOn (Probe.wrap memoryStore) 1 (sampleProbe, .empty) = (.ok sampleOpened.1, sampleOpened.2) ∧
    ∃ events last, attemptAll (Probe.wrap memoryStore) sampleAttempts sampleOpened = (events, last) ∧
      events.map (·.answer.toOption.isSome) = [true, false, false, true, false, true, false, true] ∧
      events.map (·.op) = sampleAttempts ∧
      (∀ event ∈ events, event.answer.toOption = none → event.seen = []) ∧
      ∃ answers entries,
        session memoryStore 1 ((succeeded events).map (·.1)) .empty = (.ok answers, entries) ∧
        AgreeAll Eq ((succeeded events).map (·.1)) ((succeeded events).map (·.2)) answers ∧
        (Ledger.opened 1).AnswersAll ((succeeded events).map (·.1)) ((succeeded events).map (·.2)) := by
  have steady : ∀ op ∈ sampleAttempts, op.isSteady ∧ op.Draws [(7, 70), (7, 71), (9, 90)] := by
    simp +contextual [sampleAttempts, Op.isSteady, Op.Draws, Wire.readsBack_word]
  have opened : openOn (Probe.wrap memoryStore) 1 (sampleProbe, .empty) =
    (.ok sampleOpened.1, sampleOpened.2) := rfl
  have answered : (attemptAll (Probe.wrap memoryStore) sampleAttempts sampleOpened).1.map
      (·.answer.toOption.isSome) = [true, false, false, true, false, true, false, true] := by decide +kernel
  rcases ran : attemptAll (Probe.wrap memoryStore) sampleAttempts sampleOpened with ⟨events, last⟩
  rw [ran] at answered
  exact ⟨opened, events, last, rfl, answered,
    faultsHidden probeFollows (tellableWords (by decide)) rfl opened steady ran⟩

end SymbolCatalog.KeyIndex
