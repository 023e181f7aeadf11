import SymbolCatalog.Proofs.KeyIndex.Attempts

/-! The tables of an index hand out what they hold in an order of their own. No answer depends on
it: before each call they may stand in another order. -/
namespace SymbolCatalog.KeyIndex
open ExceptT
variable {K V σ τ : Type} [DecidableEq K]

structure Alike (index index' : KeyIndex K V) : Prop where
  version : index'.version = index.version
  containers : ∀ key, Option.Rel SamePairs (index.containers.get? key) (index'.containers.get? key)
  forward : ∀ file, Option.Rel List.Perm (index.forward.get? file) (index'.forward.get? file)
  dirtyKeys : index'.dirtyKeys.Perm index.dirtyKeys
  dirtyFiles : index'.dirtyFiles.Perm index.dirtyFiles

section
variable {index index' : KeyIndex K V} (alike : Alike index index')
include alike

theorem Alike.contains (key : K) : index'.containers.contains key = index.containers.contains key := by
  have rel := alike.containers key
  unfold Dict.contains
  revert rel
  generalize index.containers.get? key = known, index'.containers.get? key = known'
  rintro (_ | _) <;> rfl

theorem Alike.held (key : K) : SamePairs (index.held key) (index'.held key) := by
  have rel := alike.containers key
  unfold KeyIndex.held
  revert rel
  generalize index.containers.get? key = known, index'.containers.get? key = known'
  rintro (same | _)
  · exact same
  · exact .refl _

variable [DecidableEq V] [Wire K] [Wire V] {entries : Entries} {a : Account K V}

theorem Alike.tells (h : Tells index entries a) : Tells index' entries a where
  coded := h.coded
  shown key there := by
    obtain ⟨reads, shows⟩ := h.shown key (alike.contains key ▸ there)
    exact ⟨reads, fun file value => (alike.held key).mem_iff.symm.trans (shows file value)⟩
  dirty key mem := alike.contains key ▸ h.dirty key (alike.dirtyKeys.mem_iff.1 mem)
  clean key reads out := h.clean key reads fun mem => out (alike.dirtyKeys.mem_iff.2 mem)
  listed file keys known := by
    have rel := alike.forward file
    rw [known] at rel
    generalize before : index.forward.get? file = keys? at rel
    cases rel with
    | some same =>
      obtain ⟨some, distinct, lists⟩ := h.listed file _ before
      exact ⟨fun none => some (List.perm_nil.1 (none ▸ same)), same.nodup_iff.1 distinct,
        fun key => same.mem_iff.symm.trans (lists key)⟩
  gone file mem unknown := by
    have rel := alike.forward file
    rw [unknown] at rel
    generalize before : index.forward.get? file = keys? at rel
    cases rel
    exact h.gone file (alike.dirtyFiles.mem_iff.1 mem) before
  settled file out := h.settled file fun mem => out (alike.dirtyFiles.mem_iff.2 mem)
  keyPlaces := h.keyPlaces
  filePlaces := h.filePlaces

theorem Alike.represents {view : σ → Entries} {s : σ} {l : Ledger K V} (h : Represents view (index, s) l) :
    Represents view (index', s) l := by
  have holds := holdsIff.1 h.holds
  exact ⟨holdsIff.2 ⟨alike.tells holds.1, alike.version ▸ holds.2⟩, h.committed, alike.version.trans h.version⟩

end

variable [DecidableEq V] [Wire K] [Wire V]

inductive Runs (store : Store σ) : KeyIndex K V × σ → List (Op K V) → List (Answer K V) → KeyIndex K V × σ → Prop
  | done (state) : Runs store state [] [] state
  | next {index index' : KeyIndex K V} {s op answer mid ops answers last} (alike : Alike index index')
      (ran : perform store op (index', s) = (.ok answer, mid)) (rest : Runs store mid ops answers last) :
      Runs store (index, s) (op :: ops) (answer :: answers) last

variable {store : Store σ} {view : σ → Entries} {other : Store τ} {shown : τ → Entries}

theorem runsFollowLedger (follows : store.Follows view False) {state last : KeyIndex K V × σ} {l : Ledger K V}
    (h : Represents view state l) {ops : List (Op K V)} {answers : List (Answer K V)}
    (run : Runs store state ops answers last) (admitted : l.AdmitsAll ops) :
    l.AnswersAll ops answers ∧ Represents view last (l.run ops) := by
  induction run generalizing l with
  | done => exact ⟨trivial, h⟩
  | next alike ran _ ih =>
    obtain ⟨right, mid⟩ := (endsPerform follows (alike.represents h) admitted.1).answered ran
    obtain ⟨rights, last⟩ := ih mid admitted.2
    exact ⟨⟨right, rights⟩, last⟩

/-- Two indexes that hold the same, each on a store with the same entries, give the same answers through
any run, in whatever orders their tables stand before each call. -/
theorem ordersAgree (follows : store.Follows view False) (follows' : other.Follows shown False)
    {index index' : KeyIndex K V} (alike : Alike index index') {s : σ} {t : τ} (same : shown t = view s)
    {l : Ledger K V} (h : Represents view (index, s) l) {ops : List (Op K V)} (admitted : l.AdmitsAll ops)
    {answers answers' : List (Answer K V)} {last : KeyIndex K V × σ} {last' : KeyIndex K V × τ}
    (run : Runs store (index, s) ops answers last) (run' : Runs other (index', t) ops answers' last') :
    AgreeAll SamePairs ops answers answers' := by
  have here := alike.represents h
  have there : Represents shown (index', t) l := ⟨same ▸ here.holds, same ▸ here.committed, here.version⟩
  exact Ledger.answersAgree (runsFollowLedger follows h run admitted).1 (runsFollowLedger follows' there run' admitted).1

end SymbolCatalog.KeyIndex
