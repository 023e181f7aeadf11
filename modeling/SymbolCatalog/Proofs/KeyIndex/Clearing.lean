import SymbolCatalog.Proofs.KeyIndex.Interrupted

/-! What can be asked of an index after a clear has failed. A clear empties the index first and the
store after it: what was held and not written is gone, what the store keeps is there. -/
namespace SymbolCatalog.KeyIndex
open ExceptT StoreCall
variable {K V σ : Type} [DecidableEq K] [DecidableEq V] [Wire K] [Wire V]

def AnswerAlike (one two : KeyIndex K V × Entries) : Prop :=
  ∀ op : Op K V, op.isQuery → op.Draws [] →
    ∀ (τ : Type) (store : Store τ) (view : τ → Entries), store.Follows view False →
    ∀ t t', view t = one.2 → view t' = two.2 →
      ∃ answer last answer' last', perform store op (one.1, t) = (.ok answer, last) ∧
        perform store op (two.1, t') = (.ok answer', last') ∧ Agree SamePairs op answer answer'

def AllOrNothing (before after : KeyIndex K V × Entries) : Prop :=
  AnswerAlike before after ∨ AnswerAlike (empty before.1.version, .empty) after

variable {index index' : KeyIndex K V} {entries entries' : Entries} {a b : Account K V} {key : K}

theorem Tells.endsFound {store : Store σ} {view : σ → Entries} {fails : Prop} {s : σ} (h : Tells index (view s) a)
    (follows : store.Follows view fails) (reads : Wire.ReadsBack key) : (perform store (.get key)).Ends (index, s)
      (fun answer _ => ∃ c, answer = .found c ∧ a.Shows c key) fun after => fails ∧ Reads view (index, s) after a :=
  endsMap ((h.endsGet follows reads).weaken (fun c _ ⟨shows, _⟩ => ⟨c, rfl, shows⟩) fun _ => id)

theorem Tells.answerAlike (h : Tells index entries a) (h' : Tells index' entries' b)
    (same : ∀ key file value, a.occurs key file value ↔ b.occurs key file value) :
    AnswerAlike (index, entries) (index', entries') := by
  intro op query draws τ store view follows t t' seen seen'
  dsimp only at seen seen'
  subst seen
  subst seen'
  cases op with
  | get key =>
    obtain ⟨_, last, got, c, rfl, shows⟩ := (h.endsFound follows draws).surely
    obtain ⟨_, last', got', c', rfl, shows'⟩ := (h'.endsFound follows draws).surely
    exact ⟨_, last, _, last', got, got', .found key ((sameShows shows shows').2 (same key))⟩
  | visit scope accepts goesOn =>
    obtain ⟨_, last, shown, -, -, all, visits, rfl⟩ := (h.endsShown follows scope accepts goesOn).surely
    obtain ⟨_, last', shown', -, -, all', visits', rfl⟩ := (h'.endsShown follows scope accepts goesOn).surely
    have perm : all.Perm all' := by
      refine (List.perm_ext_iff_of_nodup visits.1 visits'.1).2 fun key => ?_
      rw [visits.2, visits'.2]
      simp only [same]
    exact ⟨_, last, _, last', shown, shown', .visited scope accepts goesOn perm⟩
  | _ => cases query

theorem AnswerAlike.found {one two : KeyIndex K V × Entries} (alike : AnswerAlike one two)
    (reads : Wire.ReadsBack key) {c c' : Occurrences V} {last last' : KeyIndex K V × Entries}
    (got : perform memoryStore (.get key) one = (.ok (.found c), last))
    (got' : perform memoryStore (.get key) two = (.ok (.found c'), last')) : SamePairs c c' := by
  obtain ⟨answer, l, answer', l', ran, ran', agree⟩ :=
    alike (.get key) rfl reads _ memoryStore id memoryFollows one.2 two.2 rfl rfl
  cases ran.symm.trans got
  cases ran'.symm.trans got'
  cases agree with
  | found _ same => exact same

theorem Tells.answeredAlike (h : Tells index entries a) (h' : Tells index' entries' b)
    (alike : AnswerAlike (index, entries) (index', entries')) (reads : Wire.ReadsBack key) :
    ∀ file value, a.occurs key file value ↔ b.occurs key file value := by
  have tells : Tells index (id entries) a := h
  have tells' : Tells index' (id entries') b := h'
  obtain ⟨_, last, got, c, rfl, shows⟩ := (tells.endsFound memoryFollows reads).surely
  obtain ⟨_, last', got', c', rfl, shows'⟩ := (tells'.endsFound memoryFollows reads).surely
  exact (sameShows shows shows').1 (alike.found reads got got')

theorem recordsAlike (h : Tells index entries a) (keeps : Keeps entries b) (reads : Wire.ReadsBack key) :
    SamePairs (told index entries key) (recorded entries key) ↔
      ∀ file value, a.occurs key file value ↔ b.occurs key file value :=
  sameShows (h.told reads) (Tells.recorded keeps reads List.not_mem_nil)

theorem recordsEmpty (keeps : Keeps entries b) (reads : Wire.ReadsBack key) :
    (recorded (V := V) entries key).isEmpty ↔ ∀ file value, False ↔ b.occurs key file value := by
  have shows := Tells.recorded keeps reads List.not_mem_nil
  rw [Occurrences.isEmptyIff, Prod.forall]
  simp only [shows _ _, false_iff]

omit [DecidableEq K] [DecidableEq V] in
theorem occurringAlike (h : a.Coded) (h' : b.Coded)
    (same : ∀ key, Wire.ReadsBack key → ∀ file value, a.occurs key file value ↔ b.occurs key file value) :
    ∀ key file value, a.occurs key file value ↔ b.occurs key file value := by
  intro key file value
  constructor
  · intro occurs
    exact (same key (h.occurring key file value occurs).1 file value).1 occurs
  · intro occurs
    exact (same key (h'.occurring key file value occurs).1 file value).2 occurs

variable {store : Store σ} {view : σ → Entries} {given : List (K × V)}

def unclearable (entries : Entries) : Probe × Entries := (Probe.idle.failing [.clear] [], entries)

omit [DecidableEq K] [DecidableEq V] [Wire K] [Wire V] in
theorem clearRefused (index : KeyIndex K V) (entries : Entries) : ∃ e probe,
    clear (Probe.wrap memoryStore) (index, unclearable entries) = (.error e, empty index.version, probe, entries) :=
  ⟨_, _, rfl⟩

/-- Wherever a clear has failed, it was all or nothing exactly if the store records of each key what the
index tells of it, or records nothing of any key. -/
theorem failedClearExact (follows : store.Follows view True) (tellable : Tellable given) {start s : σ}
    (new : view start = .empty) (reached : Reached store given start (some index) s) :
    (∀ (τ : Type) (other : Store τ) (shown : τ → Entries), other.Follows shown True → ∀ t, shown t = view s →
      ∀ e after, clear other (index, t) = (.error e, after) →
        AllOrNothing (index, view s) (after.1, shown after.2)) ↔
      (∀ key : K, Wire.ReadsBack key → SamePairs (told index (view s) key) (recorded (V := V) (view s) key)) ∨
        ∀ key : K, Wire.ReadsBack key → (recorded (V := V) (view s) key).isEmpty := by
  obtain ⟨a, b, apart⟩ := (reachedApart follows tellable new reached).2 index rfl
  have kept : ∀ version, Tells (empty version) (view s) b := fun _ => keepsIff.2 apart.keeps
  have fresh : Tells (empty index.version) .empty (Account.none : Account K V) := keepsIff.2 keepsEmpty
  constructor
  · intro always
    obtain ⟨e, probe, failed⟩ := clearRefused index (view s)
    rcases always _ _ _ probeFollows (unclearable (view s)) rfl e _ failed with before | nothing
    · refine .inl fun key reads => (recordsAlike apart.tells apart.keeps reads).2 ?_
      exact apart.tells.answeredAlike (kept _) before reads
    · refine .inr fun key reads => (recordsEmpty apart.keeps reads).2 ?_
      exact fresh.answeredAlike (kept _) nothing reads
  · intro records τ other shown follows' t same e after failed
    obtain ⟨-, blank, entries⟩ := (endsClear follows' index t).stopped failed
    rw [blank]
    rcases entries with whole | gone
    · rw [whole, same]
      rcases records with alike | none
      · refine .inl (apart.tells.answerAlike (kept _) (occurringAlike apart.tells.coded apart.keeps.coded ?_))
        exact fun key reads => (recordsAlike apart.tells apart.keeps reads).1 (alike key reads)
      · refine .inr (fresh.answerAlike (kept _) (occurringAlike fresh.coded apart.keeps.coded ?_))
        exact fun key reads => (recordsEmpty apart.keeps reads).1 (none key reads)
    · rw [gone]
      exact .inr (fresh.answerAlike fresh fun _ _ _ => Iff.rfl)

def halfWritten : KeyIndex UInt32 UInt32 × Probe × Entries :=
  let store := Probe.wrap memoryStore
  let opened : StoreCall (Probe × Entries) (KeyIndex UInt32 UInt32) := openOn store 1
  let first := (perform store (.update ⟨1⟩ [(7, 70)]) (empty 1, (opened (Probe.idle, .empty)).2)).2
  (perform store (.update ⟨2⟩ [(8, 80)]) (perform store .flush first).2).2

theorem halfWrittenReached : Reached (Probe.wrap memoryStore) [(7, 70), (8, 80)] (Probe.idle, .empty)
    (some halfWritten.1) halfWritten.2 := by
  have opened : Reached (K := UInt32) (V := UInt32) (Probe.wrap memoryStore) [(7, 70), (8, 80)] (Probe.idle, .empty)
      (some (empty 1)) _ := .opened .start 1 rfl
  have first : (Op.update ⟨1⟩ [(7, 70)] : Op UInt32 UInt32).Draws [(7, 70), (8, 80)] := by simp [Op.Draws]
  have flush : (Op.flush : Op UInt32 UInt32).Draws [(7, 70), (8, 80)] := trivial
  have second : (Op.update ⟨2⟩ [(8, 80)] : Op UInt32 UInt32).Draws [(7, 70), (8, 80)] := by simp [Op.Draws]
  exact .called (.called (.called opened first nofun rfl) flush nofun rfl) second nofun rfl

theorem halfWrittenExact :
    Reached (Probe.wrap memoryStore) [(7, 70), (8, 80)] (Probe.idle, .empty) (some halfWritten.1) halfWritten.2 ∧
    ((∀ (τ : Type) (other : Store τ) (shown : τ → Entries), other.Follows shown True → ∀ t, shown t = halfWritten.2.2 →
      ∀ e after, clear other (halfWritten.1, t) = (.error e, after) →
        AllOrNothing (halfWritten.1, halfWritten.2.2) (after.1, shown after.2)) ↔
      (∀ key : UInt32, Wire.ReadsBack key →
        SamePairs (told halfWritten.1 halfWritten.2.2 key) (recorded (V := UInt32) halfWritten.2.2 key)) ∨
        ∀ key : UInt32, Wire.ReadsBack key → (recorded (V := UInt32) halfWritten.2.2 key).isEmpty) :=
  ⟨halfWrittenReached, failedClearExact probeFollows (tellableWords (by decide)) rfl halfWrittenReached⟩

theorem failedClearMixed :
    Reached (Probe.wrap memoryStore) [(7, 70), (8, 80)] (Probe.idle, .empty) (some halfWritten.1) halfWritten.2 ∧
    ∃ e after, clear (Probe.wrap memoryStore) (halfWritten.1, unclearable halfWritten.2.2) = (.error e, after) ∧
      ¬ AllOrNothing (halfWritten.1, halfWritten.2.2) (after.1, after.2.2) := by
  obtain ⟨e, probe, failed⟩ := clearRefused halfWritten.1 halfWritten.2.2
  refine ⟨halfWrittenReached, e, _, failed, ?_⟩
  rintro (before | nothing)
  · have same : List.Perm [((⟨2⟩ : FileId), (80 : UInt32))] [] := before.found (Wire.readsBack_word 8) rfl rfl
    simp at same
  · have same : List.Perm [] [((⟨1⟩ : FileId), (70 : UInt32))] := nothing.found (Wire.readsBack_word 7) rfl rfl
    simp at same

end SymbolCatalog.KeyIndex
