import SymbolCatalog.Proofs.KeyIndex.Attempts

/-! What an index finds on a store after a flush has failed half way. Keys are written first and
files after them, so of some keys and files the store tells what the index told, of the others what
it told before. -/
namespace SymbolCatalog.KeyIndex
open ExceptT StoreCall
variable {K V σ : Type} [DecidableEq K] [DecidableEq V] [Wire K] [Wire V]

def recorded (entries : Entries) (key : K) : Occurrences V :=
  match recordAt (Occurrences V) entries (containerKey key) with
  | .ok (some c) => c
  | _ => .empty

def told (index : KeyIndex K V) (entries : Entries) (key : K) : Occurrences V :=
  (index.containers.get? key).getD (recorded entries key)

def listed (K : Type) [Wire K] (entries : Entries) (file : FileId) : List K :=
  match recordAt (List K) entries (fileKey file) with
  | .ok (some keys) => keys
  | _ => []

def Listed (index : KeyIndex K V) (entries : Entries) (file : FileId) : Prop :=
  ∀ key : K, Wire.ReadsBack key →
    (told index entries key).anyFile (· = file) ∨ (recorded (V := V) entries key).anyFile (· = file) →
    key ∈ listed K entries file

def opening (version : UInt32) (entries : Entries) : Entries :=
  if entries.get? versionKey = some (stamp version) then entries
  else Entries.empty.insert versionKey (stamp version)

def Removable (K V : Type) [DecidableEq K] [DecidableEq V] [Wire K] [Wire V] (version : UInt32)
    (entries : Entries) (file : FileId) : Prop :=
  ∀ (τ : Type) (store : Store τ) (view : τ → Entries), store.Follows view True → ∀ t, view t = entries →
    ∀ (reopened : KeyIndex K V) t', openOn store version t = (.ok reopened, t') →
    ∀ had removed, removeFile store file (reopened, t') = (.ok had, removed) →
      (∀ key, Wire.ReadsBack key → ∀ c last, get store key removed = (.ok c, last) →
        c.anyFile (· = file) = false) ∧
      ∀ accepts goesOn completed keys last,
        perform store (.visit (· = file) accepts goesOn) removed = (.ok (.visited completed keys), last) → keys = []

variable {index : KeyIndex K V} {entries : Entries} {a b : Account K V} {version : UInt32} {file : FileId}

theorem Tells.recorded (h : Tells index entries a) {key : K} (reads : Wire.ReadsBack key)
    (clean : key ∉ index.dirtyKeys) : a.Shows (recorded entries key) key := by
  obtain ⟨found, record, told⟩ := h.clean key reads clean
  have shows := told.shows
  unfold KeyIndex.recorded
  rw [record]
  cases found <;> exact shows

theorem Tells.told (h : Tells index entries a) {key : K} (reads : Wire.ReadsBack key) :
    a.Shows (told index entries key) key := by
  unfold KeyIndex.told
  cases known : index.containers.get? key with
  | some c =>
    have shows := (h.shown key (by rw [Dict.contains, known]; rfl)).2
    rw [KeyIndex.held, known] at shows
    exact shows
  | none =>
    refine h.recorded reads fun dirty => ?_
    have there := h.dirty key dirty
    rw [Dict.contains, known] at there
    cases there

theorem Keeps.memListed (keeps : Keeps entries b) {key : K} : key ∈ listed K entries file ↔ b.lists file key := by
  obtain ⟨found, record, -, lists⟩ := keeps.settled file List.not_mem_nil
  rw [← lists.2]
  unfold listed
  rw [record]
  cases found <;> rfl

theorem listedIff (h : Tells index entries a) (keeps : Keeps entries b) : Listed index entries file ↔
    ∀ key value, a.occurs key file value ∨ b.occurs key file value → b.lists file key := by
  constructor
  · intro all key value occurs
    have reads : Wire.ReadsBack key := occurs.elim (fun o => (h.coded.occurring key file value o).1)
      fun o => (keeps.coded.occurring key file value o).1
    refine keeps.memListed.1 (all key reads (occurs.imp (fun o => ?_) fun o => ?_))
    · exact (h.told reads).anyFile.2 ⟨value, o⟩
    · exact (keeps.recorded reads List.not_mem_nil).anyFile.2 ⟨value, o⟩
  · intro all key reads occurs
    rw [(h.told reads).anyFile, (Tells.recorded keeps reads List.not_mem_nil).anyFile] at occurs
    obtain ⟨value, o⟩ | ⟨value, o⟩ := occurs
    · exact keeps.memListed.2 (all key value (.inl o))
    · exact keeps.memListed.2 (all key value (.inr o))

theorem removableListed (keeps : Keeps (opening version entries) b)
    (removable : Removable K V version entries file) {key : K} {value : V} (occurs : b.occurs key file value) :
    b.lists file key := by
  by_contra unlisted
  obtain ⟨reopened, s, opened, rfl, found⟩ := (endsOpen (K := K) (V := V) memoryFollows version entries).surely
  have tells : Tells (empty version) (id s) b := by
    rw [found]
    exact keepsIff.2 keeps
  obtain ⟨had, ⟨index', s'⟩, ran, r, -⟩ := (tells.endsRemoveFile memoryFollows file).surely
  have reads := (keeps.coded.occurring key file value occurs).1
  obtain ⟨c, last, got, shows, -⟩ := (r.tells.endsGet memoryFollows reads).surely
  have gone := (removable _ memoryStore id memoryFollows.may entries rfl _ s opened had _ ran).1 key reads c last got
  have left : (b.put file []).occurs key file value := .inr ⟨occurs, by simp [unlisted]⟩
  rw [shows.anyFile.2 ⟨value, left⟩] at gone
  cases gone

omit [DecidableEq K] [DecidableEq V] [Wire K] [Wire V] in
theorem putGone (covered : ∀ key value, b.occurs key file value → b.lists file key) {key : K} {value : V} :
    ¬ (b.put file []).occurs key file value := by
  rintro (⟨-, mem⟩ | ⟨old, kept⟩)
  · exact List.not_mem_nil mem
  · exact kept ⟨rfl, .inl (covered key value old)⟩

theorem removableCovered (keeps : Keeps (opening version entries) b)
    (covered : ∀ key value, b.occurs key file value → b.lists file key) : Removable K V version entries file := by
  intro τ store view follows t same reopened t' opened had ⟨index', s'⟩ ran
  obtain ⟨rfl, found⟩ := (endsOpen (K := K) (V := V) follows version t).answered opened
  rw [same] at found
  have tells : Tells (empty version) (view t') b := by
    rw [found]
    exact keepsIff.2 keeps
  have tells := ((tells.endsRemoveFile follows file).answered ran).1.tells
  refine ⟨fun key reads c last got => ?_, fun accepts goesOn completed keys last shown => ?_⟩
  · obtain ⟨shows, -⟩ := (tells.endsGet follows reads).answered got
    refine Bool.eq_false_iff.2 fun any => ?_
    obtain ⟨value, occurs⟩ := shows.anyFile.1 any
    exact putGone covered occurs
  · obtain ⟨-, -, all, visits, noted⟩ := (tells.endsShown follows (· = file) accepts goesOn).answered shown
    have nothing : all = [] := by
      refine List.eq_nil_iff_forall_not_mem.2 fun key mem => ?_
      obtain ⟨-, f, value, occurs, inside⟩ := (visits.2 key).1 mem
      have same : f = file := by simpa using inside
      exact putGone covered (same ▸ occurs)
    subst nothing
    cases noted
    rfl

/-! Every index that can come about, with every operation failing at any time, over a store that was empty. -/

variable {store : Store σ} {view : σ → Entries} {fails : Prop} {given : List (K × V)}

inductive Reached (store : Store σ) (given : List (K × V)) (start : σ) : Option (KeyIndex K V) → σ → Prop
  | start : Reached store given start none start
  | opened {index? : Option (KeyIndex K V)} {s s' : σ} {answer : Except StorageError (KeyIndex K V)}
      (before : Reached store given start index? s) (version : UInt32)
      (ran : openOn store version s = (answer, s')) : Reached store given start answer.toOption s'
  | called {index : KeyIndex K V} {s : σ} {op : Op K V} {answer : Except StorageError (Answer K V)}
      {after : KeyIndex K V × σ} (before : Reached store given start (some index) s) (draws : op.Draws given)
      (same : ∀ version, op ≠ .reopen version) (ran : perform store op (index, s) = (answer, after)) :
      Reached store given start (some after.1) after.2

/- What the index tells is `a`, what the store keeps is `b`. Where they differ, a key that the store
lists for a file in which the index finds it is listed by the index as well. -/
structure Apart (given : List (K × V)) (index : KeyIndex K V) (entries : Entries) (a b : Account K V) : Prop where
  tells : Tells index entries a
  keeps : Keeps entries b
  tellsAmong : a.Among given
  keepsAmong : b.Among given
  closed : ∀ key file value, a.occurs key file value → b.lists file key → a.lists file key

theorem apartOpened (keeps : Keeps entries b) (among : b.Among given) (version : UInt32) :
    Apart given (empty version) entries b b :=
  ⟨keepsIff.2 keeps, keeps, among, among, fun _ _ _ _ => id⟩

theorem keepsFresh (version : UInt32) :
    Keeps (Entries.empty.insert versionKey (stamp version)) (Account.none : Account K V) := by
  have tells := (freshStored (K := K) (V := V) version).tells
  rw [Contents.accountNone] at tells
  exact keepsIff.1 tells

theorem keepsEmpty : Keeps .empty (Account.none : Account K V) :=
  keepsNothing (fun _ => Entries.getEmpty _) fun _ => Entries.getEmpty _

theorem keepsOpening (keeps : Keeps entries b) (among : b.Among given) (version : UInt32) :
    ∃ b', Keeps (opening version entries) b' ∧ b'.Among given := by
  unfold opening
  split
  · exact ⟨b, keeps, among⟩
  · exact ⟨.none, keepsFresh version, Account.amongNone given⟩

theorem Reads.apart {before after : KeyIndex K V × σ} (r : Reads view before after a)
    (h : Apart given before.1 (view before.2) a b) : Apart given after.1 (view after.2) a b :=
  ⟨r.tells, r.store ▸ h.keeps, h.tellsAmong, h.keepsAmong, h.closed⟩

theorem Replaces.apart {before after : KeyIndex K V × σ} {entries : List (K × V)}
    (r : Replaces view before after a file entries) (h : Apart given before.1 (view before.2) a b)
    (drawn : ∀ p ∈ entries, p ∈ given) :
    Apart given after.1 (view after.2) (a.put file entries) b where
  tells := r.tells
  keeps := r.store ▸ h.keeps
  tellsAmong := h.tellsAmong.put file drawn
  keepsAmong := h.keepsAmong
  closed key f value occurs kept := by
    rcases occurs with ⟨same, mem⟩ | ⟨old, left⟩
    · exact .inl ⟨same, value, mem⟩
    · have there := h.closed key f value old kept
      exact .inr ⟨fun same => left ⟨same, .inl (same ▸ there)⟩, there⟩

theorem Writes.apart {before after : KeyIndex K V × σ} (w : Writes view before after a)
    (h : Apart given before.1 (view before.2) a b) {keys : List K} {files : List FileId}
    (overwrites : Overwrites (view before.2) (view after.2) a keys files) :
    Apart given after.1 (view after.2) a (b.overwritten a keys files) where
  tells := w.tells
  keeps := overwrites b h.keeps
  tellsAmong := h.tellsAmong
  keepsAmong := h.keepsAmong.overwritten h.tellsAmong keys files
  closed key f value occurs kept := kept.elim And.right fun old => h.closed key f value occurs old.2

theorem endsApart (follows : store.Follows view fails) (tellable : Tellable given) {s : σ}
    (h : Apart given index (view s) a b) {op : Op K V} (draws : op.Draws given)
    (same : ∀ version, op ≠ .reopen version) : (perform store op).Ends (index, s)
      (fun _ after => ∃ a b, Apart given after.1 (view after.2) a b)
      fun after => ∃ a b, Apart given after.1 (view after.2) a b := by
  have fits := h.tellsAmong.fits tellable.few
  cases op with
  | reopen version => exact absurd rfl (same version)
  | update file entries =>
    have coded : ∀ p ∈ entries, Wire.ReadsBack p.1 ∧ Wire.ReadsBack p.2 := fun p hp => tellable.coded p (draws p hp)
    refine endsBind ((h.tells.endsUpdate follows file coded).weaken ?_ fun _ ⟨_, r⟩ => ⟨a, b, r.apart h⟩)
    exact fun _ after r => endsPure ⟨_, b, r.apart h draws⟩
  | removeFile file =>
    refine endsMap ((h.tells.endsRemoveFile follows file).weaken ?_ fun _ ⟨_, r⟩ => ⟨a, b, r.apart h⟩)
    exact fun _ after ⟨r, _⟩ => ⟨_, b, r.apart h (by simp)⟩
  | get key =>
    refine endsMap ((h.tells.endsGet follows draws).weaken ?_ fun _ ⟨_, r⟩ => ⟨a, b, r.apart h⟩)
    exact fun _ after ⟨_, _, r⟩ => ⟨a, b, r.apart h⟩
  | visit scope accepts goesOn =>
    refine (h.tells.endsShown follows scope accepts goesOn).weaken ?_ ?_
    · intro _ ⟨index', s'⟩ ⟨kept, same, _⟩
      cases kept
      exact ⟨a, b, (readsNothing h.tells same).apart h⟩
    · intro ⟨index', s'⟩ ⟨_, kept, same⟩
      cases kept
      exact ⟨a, b, (readsNothing h.tells same).apart h⟩
  | flush =>
    refine endsBind ((h.tells.endsFlush follows fits).weaken ?_ ?_)
    · exact fun _ after ⟨w, keeps⟩ =>
        endsPure ⟨a, a, w.tells, keeps, h.tellsAmong, h.tellsAmong, fun _ _ _ _ => id⟩
    · exact fun after ⟨_, w, keys, files, _, overwrites⟩ => ⟨a, _, w.apart h overwrites⟩
  | clear =>
    refine endsBind ((endsClear follows index s).weaken ?_ ?_)
    · intro _ ⟨index', s'⟩ ⟨blank, entries⟩
      cases blank
      refine endsPure ⟨.none, .none, ?_⟩
      rw [entries]
      exact apartOpened (keepsFresh _) (Account.amongNone given) _
    · intro ⟨index', s'⟩ ⟨_, blank, entries⟩
      cases blank
      rcases entries with kept | gone
      · exact ⟨b, b, kept ▸ apartOpened h.keeps h.keepsAmong _⟩
      · exact ⟨.none, .none, gone ▸ apartOpened keepsEmpty (Account.amongNone given) _⟩

theorem reachedApart (follows : store.Follows view fails) (tellable : Tellable given) {start s : σ}
    (new : view start = .empty) {index? : Option (KeyIndex K V)} (reached : Reached store given start index? s) :
    (∃ b, Keeps (view s) b ∧ b.Among given) ∧
      ∀ index, index? = some index → ∃ a b, Apart given index (view s) a b := by
  induction reached with
  | start => exact ⟨⟨.none, new ▸ keepsEmpty, Account.amongNone given⟩, nofun⟩
  | @opened _ s s' answer _ version ran ih =>
    obtain ⟨⟨b, keeps, among⟩, -⟩ := ih
    have ended := endsOpen (K := K) (V := V) follows version s
    cases answer with
    | error e =>
      refine ⟨?_, nofun⟩
      rcases (ended.stopped ran).2 with kept | gone
      · exact ⟨b, kept ▸ keeps, among⟩
      · exact ⟨.none, gone ▸ keepsEmpty, Account.amongNone given⟩
    | ok index =>
      obtain ⟨rfl, found⟩ := ended.answered ran
      obtain ⟨b', keeps', among'⟩ := keepsOpening keeps among version
      change _ = opening version _ at found
      rw [← found] at keeps'
      refine ⟨⟨b', keeps', among'⟩, fun index same => ?_⟩
      cases same
      exact ⟨b', b', apartOpened keeps' among' version⟩
  | @called index s op answer after _ draws same ran ih =>
    obtain ⟨a, b, apart⟩ := ih.2 _ rfl
    have ended := endsApart follows tellable apart draws same
    have told : ∃ a b, Apart given after.1 (view after.2) a b := by
      cases answer with
      | error e => exact ended.stopped ran
      | ok answer => exact ended.answered ran
    refine ⟨?_, fun index same => Option.some.inj same ▸ told⟩
    obtain ⟨a, b, apart⟩ := told
    exact ⟨b, apart.keeps, apart.keepsAmong⟩

theorem Apart.clean (h : Apart given index entries a b) {key : K} (reads : Wire.ReadsBack key)
    (clean : key ∉ index.dirtyKeys) {value : V} : a.occurs key file value ↔ b.occurs key file value :=
  (h.tells.recorded reads clean file value).symm.trans (Tells.recorded h.keeps reads List.not_mem_nil file value)

theorem Apart.stretch (h : Apart given index entries a b)
    (covered : ∀ key value, a.occurs key file value ∨ b.occurs key file value → b.lists file key)
    {keys : List K} {files : List FileId} (stretch : Stretch index keys files) (key : K) (value : V)
    (occurs : (b.overwritten a keys files).occurs key file value) : (b.overwritten a keys files).lists file key := by
  have old : b.lists file key := covered key value (occurs.imp And.right And.right)
  by_cases written : file ∈ files
  · refine .inl ⟨written, h.closed key file value ?_ old⟩
    rcases occurs with ⟨-, new⟩ | ⟨out, kept⟩
    · exact new
    · -- Keys come first: once a file is written, all dirty keys are.
      rw [stretch.order.resolve_left (List.ne_nil_of_mem written)] at out
      exact (h.clean (h.keeps.coded.occurring key file value kept).1 out).2 kept
  · exact .inr ⟨written, old⟩

theorem openingStamped {entries entries' : Entries} (beside : Beside entries entries') (version : UInt32) :
    opening version entries' = if entries.get? versionKey = some (stamp version) then entries'
      else Entries.empty.insert versionKey (stamp version) := by
  unfold opening
  rw [beside versionKey (by simp [versionKey]) (by simp [versionKey])]

/-! Two ways to fail: at the first write, and after the keys but before the files. -/

theorem refusedKey {refuses : Bytes → Bool} {key : K} (refused : refuses (containerKey key) = true)
    (index : KeyIndex K V) (entries : Entries) : (writeKey (refusingStore refuses) key).Ends (index, entries)
      (fun _ _ => False) (· = (index, entries)) := by
  unfold writeKey
  refine endsBind (endsNow ?_)
  dsimp only
  split
  · exact endsBind (endsSecond ((refusingRemove refused entries).weaken (fun _ _ => False.elim)
      fun _ same => congrArg _ same))
  · exact endsBind (endsSecond ((refusingPut refused _ entries).weaken (fun _ _ => False.elim)
      fun _ same => congrArg _ same))

omit [DecidableEq K] [DecidableEq V] [Wire V] in
theorem refusedFile {refuses : Bytes → Bool} {file : FileId} (refused : refuses (fileKey file) = true)
    (index : KeyIndex K V) (entries : Entries) : (writeFile (refusingStore refuses) file).Ends (index, entries)
      (fun _ _ => False) (· = (index, entries)) := by
  unfold writeFile
  refine endsBind (endsNow ?_)
  cases index.forward.get? file with
  | none => exact endsBind (endsSecond ((refusingRemove refused entries).weaken (fun _ _ => False.elim)
      fun _ same => congrArg _ same))
  | some keys => exact endsBind (endsSecond ((refusingPut refused _ entries).weaken (fun _ _ => False.elim)
      fun _ same => congrArg _ same))

omit [DecidableEq K] [DecidableEq V] [Wire V] in
theorem refusedFiles {refuses : Bytes → Bool} (refused : ∀ file, refuses (fileKey file) = true)
    (index : KeyIndex K V) (entries : Entries) :
    (do (← now).dirtyFiles.forM (writeFile (refusingStore refuses)); (refusingStore refuses).flush.second :
      Call K V Entries Unit).Ends (index, entries) (fun _ _ => False) (· = (index, entries)) := by
  refine endsBind (endsNow (endsBind (endsForMRefused (fun _ => ?_) fun file => refusedFile (refused file) _ _)))
  exact endsSecond rfl

theorem flushRefused (index : KeyIndex K V) (entries : Entries) :
    (flush (refusingStore fun _ => true)).Ends (index, entries) (fun _ _ => False) (· = (index, entries)) := by
  unfold flush
  refine endsBind (endsNow (endsBind (endsForMRefused (fun _ => ?_) fun key => refusedKey rfl _ _)))
  exact refusedFiles (fun _ => rfl) index entries

theorem flushHalved (h : Tells index entries a) (fits : a.Fits) :
    (flush (refusingStore (Bytes.startsWith · fileFamily))).Ends (index, entries) (fun _ _ => False)
      fun after => Beside entries after.2 ∧ Overwrites entries after.2 a index.dirtyKeys [] := by
  have free : ∀ rest, Bytes.startsWith (containerFamily ++ rest) fileFamily = false := by
    intro rest
    rfl
  have refused : ∀ file, Bytes.startsWith (fileKey file) fileFamily = true := by
    intro file
    exact List.isPrefixOf_iff_prefix.2 (List.prefix_append _ _)
  have told : Tells index (id entries) a := h
  unfold flush
  refine endsBind (endsNow (endsBind ((told.endsWriteKeys (refusingUnder free) fits).weaken ?_ ?_)))
  · intro _ ⟨index', entries'⟩ ⟨w, _, _, overwrites⟩
    refine (refusedFiles refused index' entries').weaken (fun _ _ => False.elim) fun after same => ?_
    rw [same]
    exact ⟨w.beside, overwrites⟩
  · exact fun _ no => no.1.elim

theorem Apart.covered (h : Apart given index entries a b) (fits : a.Fits)
    (stamped : entries.get? versionKey = some (stamp index.version))
    (removable : ∀ refuses e after, flush (refusingStore refuses) (index, entries) = (.error e, after) →
      Removable K V index.version after.2 file)
    (key : K) (value : V) (occurs : a.occurs key file value ∨ b.occurs key file value) : b.lists file key := by
  have kept : ∀ {key value}, b.occurs key file value → b.lists file key := by
    obtain ⟨e, after, ran, same⟩ := (flushRefused index entries).refuses
    have told := removable _ e after ran
    rw [same] at told
    have keeps : Keeps (opening index.version entries) b := by
      rw [openingStamped (fun _ _ _ => rfl), if_pos stamped]
      exact h.keeps
    exact fun {_ _} => removableListed keeps told
  have written : ∀ {key value}, (b.overwritten a index.dirtyKeys []).occurs key file value → b.lists file key := by
    obtain ⟨e, after, ran, beside, overwrites⟩ := (flushHalved h.tells fits).refuses
    have keeps : Keeps (opening index.version after.2) (b.overwritten a index.dirtyKeys []) := by
      rw [openingStamped beside, if_pos stamped]
      exact overwrites b h.keeps
    intro key value occurs
    exact (removableListed keeps (removable _ e after ran) occurs).elim
      (fun new => absurd new.1 List.not_mem_nil) And.right
  rcases occurs with told | stored
  · by_cases dirty : key ∈ index.dirtyKeys
    · exact written (.inl ⟨dirty, told⟩)
    · exact kept ((h.clean (h.tells.coded.occurring key file value told).1 dirty).1 told)
  · exact kept stored

theorem Apart.removable (follows : store.Follows view fails) {s : σ} (h : Apart given index (view s) a b)
    (fits : a.Fits) (covered : (view s).get? versionKey = some (stamp index.version) →
      ∀ key value, a.occurs key file value ∨ b.occurs key file value → b.lists file key)
    {e : StorageError} {after : KeyIndex K V × σ} (flushed : flush store (index, s) = (.error e, after)) :
    Removable K V index.version (view after.2) file := by
  obtain ⟨-, w, keys, files, stretch, overwrites⟩ := (h.tells.endsFlush follows fits).stopped flushed
  have found := openingStamped w.beside index.version
  dsimp only at found
  by_cases stamped : (view s).get? versionKey = some (stamp index.version)
  · rw [if_pos stamped] at found
    have keeps := overwrites b h.keeps
    rw [← found] at keeps
    exact removableCovered keeps (h.stretch (covered stamped) stretch)
  · rw [if_neg stamped] at found
    have keeps := keepsFresh (K := K) (V := V) index.version
    rw [← found] at keeps
    exact removableCovered keeps fun _ _ => False.elim

/-- Whatever a flush that fails has written, an index opened on the store with the same version can
remove a file, so that it occurs nowhere, exactly if all the keys under which the file occurs, in the
index or in the store, were listed for the file in the store when the flush began. -/
theorem interruptedRemovable (follows : store.Follows view True) (tellable : Tellable given) {start s : σ}
    (new : view start = .empty) (reached : Reached store given start (some index) s) (file : FileId) :
    (∀ (τ : Type) (other : Store τ) (shown : τ → Entries), other.Follows shown True → ∀ t, shown t = view s →
      ∀ e after, flush other (index, t) = (.error e, after) →
        Removable K V index.version (shown after.2) file) ↔
      ((view s).get? versionKey = some (stamp index.version) → Listed index (view s) file) := by
  obtain ⟨a, b, apart⟩ := (reachedApart follows tellable new reached).2 index rfl
  have fits := apart.tellsAmong.fits tellable.few
  rw [listedIff apart.tells apart.keeps]
  constructor
  · intro removable stamped
    exact apart.covered fits stamped fun refuses e after =>
      removable _ _ id (refusingFollows refuses) (view s) rfl e after
  · intro covered τ other shown follows' t same e after flushed
    rw [← same] at apart covered
    exact apart.removable follows' fits covered flushed

def refusedProbe : Probe := Probe.idle.failing [.put] fileFamily

def updated : KeyIndex UInt32 UInt32 × Probe × Entries :=
  (update (Probe.wrap memoryStore) ⟨1⟩ [(7, 70)]
    (empty 1, ⟨refusedProbe.fails, [.put, .clear, .get]⟩, Entries.empty.insert versionKey (stamp 1))).2

theorem updatedReached :
    Reached (Probe.wrap memoryStore) [(7, 70)] (refusedProbe, .empty) (some updated.1) updated.2 := by
  have opened : Reached (K := UInt32) (V := UInt32) (Probe.wrap memoryStore) [(7, 70)] (refusedProbe, .empty)
      (some (empty 1)) _ := .opened .start 1 rfl
  have draws : (Op.update ⟨1⟩ [(7, 70)] : Op UInt32 UInt32).Draws [(7, 70)] := fun _ => id
  exact .called opened draws nofun rfl

theorem updatedRemovable :
    Reached (Probe.wrap memoryStore) [(7, 70)] (refusedProbe, .empty) (some updated.1) updated.2 ∧
    ((∀ (τ : Type) (other : Store τ) (shown : τ → Entries), other.Follows shown True → ∀ t, shown t = updated.2.2 →
      ∀ e after, flush other (updated.1, t) = (.error e, after) →
        Removable UInt32 UInt32 updated.1.version (shown after.2) ⟨1⟩) ↔
      (updated.2.2.get? versionKey = some (stamp updated.1.version) → Listed updated.1 updated.2.2 ⟨1⟩)) :=
  ⟨updatedReached, interruptedRemovable probeFollows (tellableWords (by decide)) rfl updatedReached ⟨1⟩⟩

theorem updateStranded :
    Reached (Probe.wrap memoryStore) [(7, 70)] (refusedProbe, .empty) (some updated.1) updated.2 ∧
    ∃ interrupted c last, flush (Probe.wrap memoryStore) updated = (.error (.io .other), interrupted) ∧
      session (K := UInt32) (V := UInt32) memoryStore 1
        [.removeFile ⟨1⟩, .get 7, .visit (· = ⟨1⟩) (fun _ => true) fun _ => true] interrupted.2.2 = (.ok [.removed false, .found c, .visited true [7]], last) ∧
      c.pairs = [(⟨1⟩, 70)] :=
  ⟨updatedReached, _, _, _, rfl, rfl, rfl⟩

end SymbolCatalog.KeyIndex
