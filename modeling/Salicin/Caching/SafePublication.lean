import Salicin.Caching.Interleavings

/-!
# Undisturbed publication is safe

A publisher takes the entry away that stands under the path when it renames, not the one that it
has read. Where nothing changes the entry in between, it is the same.
-/

namespace Salicin.Caching

open List TextBytes

variable {host : Host} {identity : CacheEntryIdentity} {entry : Entry} {artifact : CacheArtifact}

/-! ## Undisturbed turns -/

/-- A publisher that reads the entry, up to the rename by which it takes an invalid one away, and
a lookup between the two files. -/
def Process.exposed : Process → Bool
  | .lookup (.metadataRead _) | .lookup (.payloadFound _) => true
  | .publish _ (.reading _ read) => read ≠ .start
  | .publish _ (.detaching _) => true
  | _ => false

/-- A turn changes the entry only while no other process is exposed to it. -/
def Undisturbed (host : Host) (identity : CacheEntryIdentity) (store : Store) (turn : Turn) :
    Prop :=
  (store.step host identity turn).entry = store.entry ∨
    ∀ index process, index ≠ turn.index → store.processes[index]? = some process →
      process.exposed = false

def UndisturbedRun (host : Host) (identity : CacheEntryIdentity) : Store → List Turn → Prop
  | _, [] => True
  | store, turn :: rest =>
    Undisturbed host identity store turn ∧
      UndisturbedRun host identity (store.step host identity turn) rest

/-- What an exposed process knows is so of the entry that stands under the path. -/
def Tracks (host : Host) (identity : CacheEntryIdentity) (entry : Entry) : Process → Prop
  | .lookup (.metadataRead metadata) | .lookup (.payloadFound metadata) =>
    ∃ bytes, entry.elim .missing Node.metadata = .regular bytes ∧
      acceptMetadata host identity bytes = .ok metadata
  | .publish _ (.reading _ read) => ∃ count, read = (observe host identity entry)^[count] .start
  | .publish _ (.detaching _) => ∃ reason,
      readThrough host identity entry = .finished (.miss reason)
  | _ => True

theorem tracks_of_unexposed (host : Host) (identity : CacheEntryIdentity) (entry : Entry)
    {process : Process} (hproc : process.exposed = false) :
    Tracks host identity entry process := by
  cases process with
  | lookup read =>
    cases read with
    | metadataRead _ | payloadFound _ => cases hproc
    | start | entryFound | metadataFound | finished _ => trivial
  | publish artifact state =>
    cases state with
    | reading attempts read =>
      have hstart : read = .start := not_not.mp (of_decide_eq_false hproc)
      exact ⟨0, hstart⟩
    | detaching _ => cases hproc
    | waiting | installing _ | rechecking _ _ | done _ => trivial

theorem tracks_attempt (host : Host) (identity : CacheEntryIdentity) (entry : Entry)
    (artifact : CacheArtifact) (attempts : Nat) :
    Tracks host identity entry (.publish artifact (attempt attempts)) := by
  cases attempts with
  | zero => trivial
  | succ attempts => exact ⟨0, rfl⟩

theorem tracks_lookup {read : ReadState} (htracks : Tracks host identity entry (.lookup read)) :
    Tracks host identity entry (.lookup (observe host identity entry read)) := by
  cases read with
  | start =>
    rcases entry with _ | node
    · trivial
    · cases node <;> trivial
  | entryFound =>
    rw [observe]
    split
    · trivial
    · trivial
    · split_ifs <;> trivial
  | metadataFound =>
    rw [observe]
    split
    · next bytes hbytes =>
        split
        · next metadata haccept => exact ⟨bytes, hbytes, haccept⟩
        · trivial
    · trivial
  | metadataRead metadata =>
    rw [observe]
    split
    · exact htracks
    · trivial
  | payloadFound metadata =>
    rw [observe]
    split <;> trivial
  | finished res => trivial

theorem Moves.tracks {state nextState : PublishState} {next : Entry}
    (hmoves : Moves host identity artifact entry state next nextState)
    (htracks : Tracks host identity entry (.publish artifact state)) :
    Tracks host identity next (.publish artifact nextState) := by
  cases hmoves with
  | rejected | found _ | absent | detached _ _ | refused _ _ | installed _ _ | occupied _ _ _
  | overtaken _ | relooked _ | ended _ _ => trivial
  | prepared _ _ => exact tracks_attempt host identity entry artifact _
  | @invalid _ _ _ reason hread =>
    obtain ⟨count, rfl⟩ := htracks
    have hnext : (observe host identity entry)^[count + 1] .start =
        .finished (.miss reason) := by
      rw [Function.iterate_succ_apply']
      exact hread
    exact ⟨reason, readThrough_of_iterate hnext⟩
  | looked _ =>
    obtain ⟨count, rfl⟩ := htracks
    exact ⟨count + 1, (Function.iterate_succ_apply' _ _ _).symm⟩
  | vanished _ _ => exact tracks_attempt host identity entry artifact _
  | @resumed _ resume _ =>
    cases resume with
    | none => trivial
    | some attempts => exact tracks_attempt host identity entry artifact attempts

/-! ## Undisturbed runs -/

/-- An artifact that a publisher has written, in the run or for the entry at its beginning. -/
def Written (host : Host) (identity : CacheEntryIdentity) (initial : Store)
    (artifact : CacheArtifact) : Prop :=
  Holds host identity initial.entry artifact ∨ artifact ∈ artifacts initial

structure Guarded (host : Host) (identity : CacheEntryIdentity) (initial store : Store) : Prop
    extends Sound host identity initial store where
  tracks : ∀ (index : Nat) (process : Process), store.processes[index]? = some process →
    Tracks host identity store.entry process
  finds : ∀ artifact, .lookup (.finished (.hit artifact)) ∈ store.processes →
    Written host identity initial artifact

/-- Only the look into the payload ends a reading with an artifact. -/
theorem hit_cases {read : ReadState}
    (hread : observe host identity entry read = .finished (.hit artifact)) :
    read = .finished (.hit artifact) ∨ ∃ metadata payload, read = .payloadFound metadata ∧
      entry.elim .missing Node.payload = .regular payload ∧
      acceptPayload host metadata payload = .hit artifact := by
  cases read with
  | start =>
    rcases entry with _ | node
    · cases hread
    · cases node <;> cases hread
  | entryFound =>
    rw [observe] at hread
    split at hread
    · cases hread
    · cases hread
    · split_ifs at hread
      cases hread
  | metadataFound =>
    rw [observe] at hread
    split at hread
    · split at hread <;> cases hread
    · cases hread
  | metadataRead metadata =>
    rw [observe] at hread
    split at hread <;> cases hread
  | payloadFound metadata =>
    rw [observe] at hread
    split at hread
    · next bytes hbytes =>
        exact .inr ⟨metadata, bytes, rfl, hbytes, ReadState.finished.inj hread⟩
    · cases hread
  | finished res => exact .inl hread

theorem Guarded.lookup {init store : Store} (hguarded : Guarded host identity init store)
    {i : Nat} {read : ReadState} (hproc : store.processes[i]? = some (.lookup read))
    (hread : observe host identity store.entry read = .finished (.hit artifact)) :
    Written host identity init artifact := by
  have hmem := mem_of_getElem? hproc
  rcases hit_cases hread with rfl | ⟨metadata, payload, rfl, hpayload, haccept⟩
  · exact hguarded.finds artifact hmem
  · rcases hguarded.entry with ⟨hfst, hreads⟩ | hnone | ⟨valid, hvalid, hholds⟩
    · obtain ⟨count, hcount⟩ := hreads _ hmem _ rfl
      have hnext : (observe host identity init.entry)^[count + 1] .start =
          .finished (.hit artifact) := by
        rw [Function.iterate_succ_apply', ← hcount, ← hfst]
        exact hread
      exact .inl (readThrough_of_iterate hnext)
    · rw [hnone] at hpayload
      cases hpayload
    · obtain ⟨bytes, hbytes, hmetadata⟩ := hguarded.tracks i _ hproc
      have hsame := holds_eq hbytes hmetadata hpayload hholds
      rw [haccept] at hsame
      rw [CacheLookup.hit.inj hsame]
      exact .inr hvalid

theorem Guarded.step {init store : Store} (hguarded : Guarded host identity init store)
    {turn : Turn} (hundisturbed : Undisturbed host identity store turn) :
    Guarded host identity init (store.step host identity turn) := by
  refine ⟨hguarded.toSound.step turn, ?_, ?_⟩
  · intro i process hproc
    -- Another process keeps what it knows, for the entry stays or it knows nothing yet.
    have hothers : i ≠ turn.index → store.processes[i]? = some process →
        Tracks host identity (store.step host identity turn).entry process := by
      intro hne hbefore
      rcases hundisturbed with hsame | hunexposed
      · rw [hsame]
        exact hguarded.tracks i process hbefore
      · exact tracks_of_unexposed host identity _ (hunexposed i process hne hbefore)
    by_cases hidx : i = turn.index
    · subst hidx
      rcases step_cases host identity store turn with
          hsame | ⟨read, hbefore, hstep⟩ | ⟨publisher, before, next, after, hbefore, hmoves, hstep⟩
      · rw [hsame] at hproc ⊢
        exact hguarded.tracks _ process hproc
      · have hlt := (List.getElem?_eq_some_iff.mp hbefore).1
        rw [hstep, List.getElem?_set_self hlt, Option.some_inj] at hproc
        rw [hstep, ← hproc]
        exact tracks_lookup (hguarded.tracks _ _ hbefore)
      · have hlt := (List.getElem?_eq_some_iff.mp hbefore).1
        rw [hstep, List.getElem?_set_self hlt, Option.some_inj] at hproc
        rw [hstep, ← hproc]
        exact hmoves.tracks (hguarded.tracks _ _ hbefore)
    · apply hothers hidx
      rcases step_cases host identity store turn with
          hsame | ⟨read, hbefore, hstep⟩ | ⟨publisher, before, next, after, hbefore, hmoves, hstep⟩
      · rw [hsame] at hproc
        exact hproc
      · rw [hstep, List.getElem?_set_ne (Ne.symm hidx)] at hproc
        exact hproc
      · rw [hstep, List.getElem?_set_ne (Ne.symm hidx)] at hproc
        exact hproc
  · intro artifact hmem
    rcases step_cases host identity store turn with
        hsame | ⟨read, hbefore, hstep⟩ | ⟨publisher, before, next, after, hbefore, hmoves, hstep⟩
    · rw [hsame] at hmem
      exact hguarded.finds artifact hmem
    · rw [hstep] at hmem
      rcases mem_of_set hmem with hmem | hmem
      · exact hguarded.finds artifact hmem
      · exact hguarded.lookup hbefore (Process.lookup.inj hmem).symm
    · rw [hstep] at hmem
      rcases mem_of_set hmem with hmem | hmem
      · exact hguarded.finds artifact hmem
      · cases hmem

theorem Guarded.run {init store : Store} (hguarded : Guarded host identity init store)
    (turns : List Turn) (hundisturbed : UndisturbedRun host identity store turns) :
    Guarded host identity init (store.run host identity turns) := by
  induction turns generalizing store with
  | nil => exact hguarded
  | cons turn rest ih => exact ih (hguarded.step hundisturbed.1) hundisturbed.2

theorem guarded_of_fresh {initial : Store} (hfresh : ∀ process ∈ initial.processes, process.fresh) :
    Guarded host identity initial initial := by
  refine ⟨sound_of_fresh hfresh, ?_, ?_⟩
  · intro i process hproc
    have hstate := hfresh process (mem_of_getElem? hproc)
    apply tracks_of_unexposed
    cases process with
    | lookup read => cases read <;> first | rfl | cases hstate
    | publish artifact state => cases state <;> first | rfl | cases hstate
  · intro artifact hmem
    cases hfresh _ hmem

/-! ## Safety -/

/-- The metadata of an empty module. -/
def emptyMetadata : CacheMetadata where
  schema := 2
  kind := "llvm-ir"
  fingerprint := "3f3f3f3f3f3f3f3f3f3f3f3f3f3f3f3f3f3f3f3f3f3f3f3f3f3f3f3f3f3f3f3f"
  compiler := "0.258.0"
  hostOs := "linux"
  hostArch := "x86_64"
  edition := "2026"
  target := "binary"
  testNames := []
  testNamesSha256 := "af5570f5a1810b7af78caf4bc70a660f0df51e42baf91d4de5b2328de0e83dfc"
  payloadBytes := 0
  payloadSha256 := "e3b0c44298fc1c149afbf4c8996fb92427ae41e4649b934ca495991b7852b855"

def metadataText (metadata : CacheMetadata) : String :=
  String.join ["schema = ", toString metadata.schema, "\nkind = \"", metadata.kind,
    "\"\nfingerprint = \"", metadata.fingerprint, "\"\ncompiler = \"", metadata.compiler,
    "\"\nhost_os = \"", metadata.hostOs, "\"\nhost_arch = \"", metadata.hostArch,
    "\"\nedition = \"", metadata.edition, "\"\ntarget = \"", metadata.target,
    "\"\ntest_names = []\ntest_names_sha256 = \"", metadata.testNamesSha256,
    "\"\npayload_bytes = ", toString metadata.payloadBytes, "\npayload_sha256 = \"",
    metadata.payloadSha256, "\"\n"]

/-- A host as far as the entry of an empty module needs one. -/
def emptyHost : Host where
  compiler := "0.258.0"
  os := "linux"
  arch := "x86_64"
  sha256Hex := fun bytes =>
    if bytes = [] then emptyMetadata.payloadSha256
    else if bytes = List.replicate 8 0 then emptyMetadata.testNamesSha256
    else ""
  encodeMetadata := fun metadata => some (encode (metadataText metadata))
  decodeMetadata := fun bytes =>
    if bytes = encode (metadataText emptyMetadata) then some emptyMetadata else none

def emptyIdentity : CacheEntryIdentity := ⟨emptyMetadata.fingerprint, "2026", .binary⟩

theorem acceptMetadata_of_compatible {bytes : List UInt8} {metadata : CacheMetadata}
    (hdecode : host.decodeMetadata bytes = some metadata)
    (hencode : host.encodeMetadata metadata = some bytes)
    (hcompatible : metadata.isCompatibleWith host identity = true) :
    acceptMetadata host identity bytes = .ok metadata := by
  simp only [acceptMetadata, hdecode, hencode, ne_eq, not_true_eq_false, if_false, hcompatible,
    if_true]

theorem holds_of_accepted {bytes payload : List UInt8} {metadata : CacheMetadata}
    (hlen : bytes.length ≤ maxMetadataBytes)
    (haccept : acceptMetadata host identity bytes = .ok metadata)
    (hpayload : acceptPayload host metadata payload = .hit artifact) :
    Holds host identity (some (.directory (.regular bytes) (.regular payload) false)) artifact := by
  simp [Holds, readThrough, observe, Node.metadata, Node.payload, not_lt.mpr hlen, haccept,
    hpayload]

theorem holds_stage_empty :
    Holds emptyHost emptyIdentity (stage emptyHost emptyIdentity ⟨"", []⟩) ⟨"", []⟩ := by
  have hlen : (encode (metadataText emptyMetadata)).length ≤ maxMetadataBytes := by
    have hsize : (metadataText emptyMetadata).utf8ByteSize ≤ maxMetadataBytes := by
      simp only [metadataText, emptyMetadata, String.join, foldl_cons, foldl_nil,
        String.utf8ByteSize_append]
      decide
    rw [encode, Array.length_toList]
    exact hsize
  have hdecode : emptyHost.decodeMetadata (encode (metadataText emptyMetadata)) =
      some emptyMetadata := by
    simp only [emptyHost, if_true]
  have hcompatible : emptyMetadata.isCompatibleWith emptyHost emptyIdentity = true := by
    decide
  exact holds_of_accepted hlen (acceptMetadata_of_compatible hdecode rfl hcompatible)
    (by decide)

/-- In every run a publisher reports success only with a valid entry in place. In every run in
which no process changes the entry while another one is exposed to it, lookups find only what a
publisher has written, and a publisher about to take the entry away faces an invalid one. -/
theorem publication_safe (host : Host) (identity : CacheEntryIdentity) {initial : Store}
    (hfresh : ∀ process ∈ initial.processes, process.fresh) (turns : List Turn) :
    let store := initial.run host identity turns
    (∀ (turn : Turn) (artifact : CacheArtifact) (state : PublishState)
      (outcome : CachePublishOutcome),
      store.processes[turn.index]? = some (.publish artifact state) →
      (∀ ended, state ≠ .done ended) →
      (store.step host identity turn).processes[turn.index]? =
        some (.publish artifact (.done (.ok outcome))) →
      ∃ valid, Holds host identity (store.step host identity turn).entry valid) ∧
    (UndisturbedRun host identity initial turns →
      (∀ artifact, .lookup (.finished (.hit artifact)) ∈ store.processes →
        Written host identity initial artifact) ∧
      (∀ (index : Nat) (artifact : CacheArtifact) (attempts : Nat),
        store.processes[index]? = some (.publish artifact (.detaching attempts)) →
        ∀ valid, ¬ Holds host identity store.entry valid)) := by
  intro store
  have hsound : Sound host identity initial store := (sound_of_fresh hfresh).run turns
  refine ⟨fun turn artifact state outcome => hsound.outcome, fun hundisturbed => ?_⟩
  have hguarded : Guarded host identity initial store :=
    (guarded_of_fresh hfresh).run turns hundisturbed
  refine ⟨hguarded.finds, fun index artifact attempts hproc valid hholds => ?_⟩
  obtain ⟨reason, hmiss⟩ := hguarded.tracks index _ hproc
  rw [Holds, hmiss] at hholds
  cases hholds

theorem run_alone (hstaged : Holds host identity (stage host identity artifact) artifact) :
    (⟨none, [.publish artifact .waiting]⟩ : Store).run host identity [⟨0, none⟩, ⟨0, none⟩] =
      ⟨none, [.publish artifact (.installing 16)]⟩ := by
  cases hstage : stage host identity artifact with
  | none =>
    rw [hstage] at hstaged
    cases hstaged
  | some staged =>
    rw [hstage] at hstaged
    simp only [Store.run, foldl_cons, foldl_nil, Store.step, Process.step, publishStep,
      hstage, hstaged, and_self, if_true, getElem?_cons_zero, set_cons_zero, attempt,
      maxPublicationAttempts, observe]

theorem publication_safe_empty : ∃ valid, Holds emptyHost emptyIdentity
    (((⟨none, [.publish ⟨"", []⟩ .waiting]⟩ : Store).run emptyHost emptyIdentity
      [⟨0, none⟩, ⟨0, none⟩]).step emptyHost emptyIdentity ⟨0, none⟩).entry valid := by
  have hfresh : ∀ process ∈ (⟨none, [.publish ⟨"", []⟩ .waiting]⟩ : Store).processes,
      process.fresh = true := by
    decide
  have hrun := run_alone holds_stage_empty
  refine (publication_safe emptyHost emptyIdentity hfresh [⟨0, none⟩, ⟨0, none⟩]).1 ⟨0, none⟩
    ⟨"", []⟩ (.installing 16) .published ?_ (fun _ h => by cases h) ?_
  · rw [hrun]
    rfl
  · rw [hrun]
    rfl

/-! ## A valid entry that is taken away -/

/-- Two publishers read the same file in the place of the entry. -/
def contested (artifact : CacheArtifact) : Store :=
  ⟨some .notDirectory, [.publish artifact .waiting, .publish artifact .waiting]⟩

/-- The first one then repairs the entry before the second one does. -/
def overtaking : List Turn := [⟨0, none⟩, ⟨1, none⟩, ⟨0, none⟩, ⟨1, none⟩, ⟨0, none⟩, ⟨0, none⟩]

theorem run_overtaking (hstaged : Holds host identity (stage host identity artifact) artifact) :
    (contested artifact).run host identity overtaking = ⟨stage host identity artifact,
        [.publish artifact (.done (.ok .published)), .publish artifact (.detaching 16)]⟩ := by
  cases hstage : stage host identity artifact with
  | none =>
    rw [hstage] at hstaged
    cases hstaged
  | some staged =>
    rw [hstage] at hstaged
    simp only [Store.run, overtaking, contested, foldl_cons, foldl_nil, Store.step,
      Process.step, publishStep, hstage, hstaged, and_self, if_true, getElem?_cons_zero,
      getElem?_cons_succ, set_cons_zero, set_cons_succ, attempt,
      maxPublicationAttempts, observe, replaceable]

/-- The second publisher takes away the valid entry that the first one has put in the place of the
file. -/
theorem valid_entry_removed :
    let store := (contested ⟨"", []⟩).run emptyHost emptyIdentity overtaking
    (∀ process ∈ (contested ⟨"", []⟩).processes, process.fresh = true) ∧
    store.processes = [.publish ⟨"", []⟩ (.done (.ok .published)),
      .publish ⟨"", []⟩ (.detaching 16)] ∧
    Holds emptyHost emptyIdentity store.entry ⟨"", []⟩ ∧
    (store.step emptyHost emptyIdentity ⟨1, none⟩).entry = none := by
  intro store
  have hstore : store = _ := run_overtaking holds_stage_empty
  refine ⟨by decide, ?_, ?_, ?_⟩
  · rw [hstore]
  · rw [hstore]
    exact holds_stage_empty
  · rw [hstore]
    decide

end Salicin.Caching
