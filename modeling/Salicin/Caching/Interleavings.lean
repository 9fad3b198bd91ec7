import Salicin.Caching.Publication

/-!
# Every order of turns

What lookups find, what publishers report and what they remove, whatever the order in which the
processes take their turns.
-/

namespace Salicin.Caching

open Function Option List

variable {host : Host} {ident : CacheEntryIdentity} {entry : Entry}

/-! ## Readings of one entry -/

theorem observe_finished (res : CacheLookup) :
    observe host ident entry (.finished res) = .finished res := rfl

theorem iterate_finished (count : Nat) (res : CacheLookup) :
    (observe host ident entry)^[count] (.finished res) = .finished res :=
  iterate_fixed (observe_finished res) count

def ReadState.rank : ReadState → Nat
  | .start => 0
  | .entryFound => 1
  | .metadataFound => 2
  | .metadataRead _ => 3
  | .payloadFound _ => 4
  | .finished _ => 5

theorem rank_observe (read : ReadState) :
    min (read.rank + 1) 5 ≤ (observe host ident entry read).rank := by
  cases read <;> simp only [observe] <;> (repeat' split) <;> simp [ReadState.rank]

theorem rank_iterate (count : Nat) :
    min count 5 ≤ ((observe host ident entry)^[count] .start).rank := by
  induction count with
  | zero => exact Nat.zero_le _
  | succ count ih =>
    rw [iterate_succ_apply']
    generalize (observe host ident entry)^[count] .start = read at ih ⊢
    have hnext : min (read.rank + 1) 5 ≤ (observe host ident entry read).rank := rank_observe read
    omega

theorem exists_readThrough (host : Host) (ident : CacheEntryIdentity) (entry : Entry) :
    ∃ res, readThrough host ident entry = .finished res := by
  have hrank : 5 ≤ (readThrough host ident entry).rank := rank_iterate 5
  generalize readThrough host ident entry = read at hrank ⊢
  cases read with
  | finished res => exact ⟨res, rfl⟩
  | start | entryFound | metadataFound | metadataRead _ | payloadFound _ =>
    simp [ReadState.rank] at hrank

/-- However long a reading of one entry goes on, it ends in the same way. -/
theorem readThrough_of_iterate {count : Nat} {res : CacheLookup}
    (h : (observe host ident entry)^[count] .start = .finished res) :
    readThrough host ident entry = .finished res := by
  obtain ⟨other, hother⟩ := exists_readThrough host ident entry
  rcases Nat.le_total count 5 with hle | hle
  · obtain ⟨rest, hrest⟩ := Nat.exists_eq_add_of_le' hle
    rw [readThrough, hrest, iterate_add_apply, h, iterate_finished]
  · obtain ⟨rest, hrest⟩ := Nat.exists_eq_add_of_le' hle
    rw [hrest, iterate_add_apply] at h
    rw [readThrough] at hother
    rw [hother, iterate_finished] at h
    rw [readThrough, hother, h]

/-- A reading that takes this metadata and this payload from an entry ends with the artifact. -/
theorem holds_eq {metadata : CacheMetadata} {artifact : CacheArtifact} {bytes payload : List UInt8}
    (hmetadata : entry.elim .missing Node.metadata = .regular bytes)
    (haccept : acceptMetadata host ident bytes = .ok metadata)
    (hpayload : entry.elim .missing Node.payload = .regular payload)
    (hholds : Holds host ident entry artifact) :
    acceptPayload host metadata payload = .hit artifact := by
  cases entry with
  | none => cases hmetadata
  | some node =>
    cases node with
    | notDirectory => cases hmetadata
    | directory first second others =>
      rw [elim_some, Node.metadata] at hmetadata
      rw [elim_some, Node.payload] at hpayload
      subst hmetadata
      subst hpayload
      rw [Holds, readThrough] at hholds
      simp only [iterate_succ, iterate_zero, comp_apply, id_eq,
        observe, elim_some, Node.metadata, Node.payload] at hholds
      by_cases hlarge : bytes.length > maxMetadataBytes
      · rw [if_pos hlarge] at hholds
        cases hholds
      · rw [if_neg hlarge] at hholds
        simp only [haccept] at hholds
        exact ReadState.finished.inj hholds

/-! ## The turns of a publisher -/

/-- Everything that a turn of a publisher can do. -/
inductive Moves (host : Host) (ident : CacheEntryIdentity) (artifact : CacheArtifact) :
    Entry → PublishState → Entry → PublishState → Prop
  | rejected (entry : Entry) :
      Moves host ident artifact entry .waiting entry (.done (.error .io))
  | prepared (entry : Entry)
      (hstaged : Holds host ident (stage host ident artifact) artifact) :
      Moves host ident artifact entry .waiting entry (attempt maxPublicationAttempts)
  | found {entry : Entry} {attempts : Nat} {read : ReadState} {valid : CacheArtifact}
      (hread : observe host ident entry read = .finished (.hit valid)) :
      Moves host ident artifact entry (.reading attempts read) entry
        (.done (.ok .alreadyPresent))
  | absent {entry : Entry} {attempts : Nat} {read : ReadState} :
      Moves host ident artifact entry (.reading attempts read) entry (.installing attempts)
  | invalid {entry : Entry} {attempts : Nat} {read : ReadState} {reason : CacheMissReason}
      (hread : observe host ident entry read = .finished (.miss reason)) :
      Moves host ident artifact entry (.reading attempts read) entry (.detaching attempts)
  | looked {entry : Entry} {attempts : Nat} {read : ReadState}
      (hread : ∀ res, observe host ident entry read ≠ .finished res) :
      Moves host ident artifact entry (.reading attempts read) entry
        (.reading attempts (observe host ident entry read))
  | vanished (entry : Entry) (attempts : Nat) :
      Moves host ident artifact entry (.detaching attempts) entry (attempt (attempts - 1))
  | detached (node : Node) (attempts : Nat) :
      Moves host ident artifact (some node) (.detaching attempts) none (.installing attempts)
  | refused (entry : Entry) (attempts : Nat) :
      Moves host ident artifact entry (.detaching attempts) entry (.rechecking none .start)
  | installed (entry : Entry) (attempts : Nat) :
      Moves host ident artifact entry (.installing attempts) (stage host ident artifact)
        (.done (.ok .published))
  | occupied (entry : Entry) (attempts : Nat) (resume : Option Nat) :
      Moves host ident artifact entry (.installing attempts) entry
        (.rechecking resume .start)
  | overtaken {entry : Entry} {resume : Option Nat} {read : ReadState} {valid : CacheArtifact}
      (hread : observe host ident entry read = .finished (.hit valid)) :
      Moves host ident artifact entry (.rechecking resume read) entry
        (.done (.ok .alreadyPresent))
  | resumed {entry : Entry} {resume : Option Nat} {read : ReadState} :
      Moves host ident artifact entry (.rechecking resume read) entry
        (resume.elim (.done (.error .io)) attempt)
  | relooked {entry : Entry} {resume : Option Nat} {read : ReadState}
      (hread : ∀ res, observe host ident entry read ≠ .finished res) :
      Moves host ident artifact entry (.rechecking resume read) entry
        (.rechecking resume (observe host ident entry read))
  | ended (entry : Entry) (outcome : Except CacheStoreError CachePublishOutcome) :
      Moves host ident artifact entry (.done outcome) entry (.done outcome)

theorem publishStep_moves (host : Host) (ident : CacheEntryIdentity)
    (artifact : CacheArtifact) (entry : Entry) (fault : Option Fault) (state : PublishState) :
    Moves host ident artifact entry state
      (publishStep host ident artifact entry fault state).1
      (publishStep host ident artifact entry fault state).2 := by
  cases state with
  | waiting =>
    rw [publishStep]
    cases hstage : stage host ident artifact with
    | none => exact .rejected entry
    | some staged =>
      simp only
      by_cases hholds : Holds host ident (some staged) artifact ∧ fault = none
      · rw [if_pos hholds]
        refine .prepared entry ?_
        rw [hstage]
        exact hholds.1
      · rw [if_neg hholds]
        exact .rejected entry
  | reading attempts read =>
    rw [publishStep]
    split
    · next hread => exact .found hread
    · exact .absent
    · next hread => exact .invalid hread
    · next hhit hmissing hmiss =>
        refine .looked fun res hread => ?_
        cases res with
        | hit valid => exact hhit valid hread
        | miss reason => exact hmiss reason hread
  | detaching attempts =>
    cases fault with
    | none =>
      cases entry with
      | none => exact .vanished none attempts
      | some node => exact .detached node attempts
    | some fault => exact .refused entry attempts
  | installing attempts =>
    cases fault with
    | none =>
      rw [publishStep]
      by_cases hreplace : replaceable entry = true
      · rw [if_pos hreplace]
        exact .installed entry attempts
      · rw [if_neg hreplace]
        exact .occupied entry attempts _
    | some fault => cases fault <;> exact .occupied entry attempts _
  | rechecking resume read =>
    rw [publishStep]
    split
    · next hread => exact .overtaken hread
    · exact .resumed
    · next hhit hmiss =>
        refine .relooked fun res hread => ?_
        cases res with
        | hit valid => exact hhit valid hread
        | miss reason => exact hmiss reason hread
  | done outcome => exact .ended entry outcome

/-- A publisher that is past its preparations has a directory that validates, and takes the end
of a reading at once. -/
def Prepared (host : Host) (ident : CacheEntryIdentity) (artifact : CacheArtifact) :
    PublishState → Prop
  | .waiting | .done _ => True
  | .reading _ read | .rechecking _ read =>
    Holds host ident (stage host ident artifact) artifact ∧ ∀ res, read ≠ .finished res
  | .detaching _ | .installing _ => Holds host ident (stage host ident artifact) artifact

variable {artifact : CacheArtifact}

theorem prepared_attempt (hstaged : Holds host ident (stage host ident artifact) artifact)
    (attempts : Nat) : Prepared host ident artifact (attempt attempts) := by
  cases attempts with
  | zero => trivial
  | succ attempts => exact ⟨hstaged, fun _ h => by cases h⟩

variable {state nextState : PublishState}

theorem Moves.keeps_prepared {next : Entry}
    (hmoves : Moves host ident artifact entry state next nextState)
    (hprep : Prepared host ident artifact state) :
    Prepared host ident artifact nextState := by
  cases hmoves with
  | rejected | found _ | installed _ _ | overtaken _ | ended _ _ => trivial
  | prepared _ hstaged => exact prepared_attempt hstaged _
  | absent | invalid _ => exact hprep.1
  | looked hread => exact ⟨hprep.1, hread⟩
  | vanished _ _ => exact prepared_attempt hprep _
  | detached _ _ => exact hprep
  | refused _ _ => exact ⟨hprep, fun _ h => by cases h⟩
  | occupied _ _ _ => exact ⟨hprep, fun _ h => by cases h⟩
  | @resumed _ resume _ =>
    cases resume with
    | none => trivial
    | some attempts => exact prepared_attempt hprep.1 attempts
  | relooked hread => exact ⟨hprep.1, hread⟩

/-! ## Turns -/

theorem step_cases (host : Host) (ident : CacheEntryIdentity) (store : Store) (turn : Turn) :
    store.step host ident turn = store ∨
    (∃ read, store.processes[turn.index]? = some (.lookup read) ∧
      store.step host ident turn = ⟨store.entry, store.processes.set turn.index
        (.lookup (observe host ident store.entry read))⟩) ∨
    (∃ artifact state next nextState,
      store.processes[turn.index]? = some (.publish artifact state) ∧
      Moves host ident artifact store.entry state next nextState ∧
      store.step host ident turn =
        ⟨next, store.processes.set turn.index (.publish artifact nextState)⟩) := by
  rw [Store.step]
  cases hproc : store.processes[turn.index]? with
  | none => exact .inl rfl
  | some process =>
    cases process with
    | lookup read => exact .inr (.inl ⟨read, rfl, rfl⟩)
    | publish artifact state =>
      exact .inr (.inr ⟨artifact, state, _, _, rfl,
        publishStep_moves host ident artifact store.entry turn.fault state, rfl⟩)

def Process.publishes : Process → Option CacheArtifact
  | .lookup _ => none
  | .publish artifact _ => some artifact

/-- The artifacts of the publishers. -/
def artifacts (store : Store) : List CacheArtifact := store.processes.filterMap Process.publishes

variable {store : Store}

theorem mem_artifacts {i : Nat} (hproc : store.processes[i]? = some (.publish artifact state)) :
    artifact ∈ artifacts store :=
  mem_filterMap.mpr ⟨_, mem_of_getElem? hproc, rfl⟩

variable {process : Process}

theorem artifacts_set {processes : List Process} {i : Nat} {next : Process}
    (hproc : processes[i]? = some process) (hnext : next.publishes = process.publishes) :
    (processes.set i next).filterMap Process.publishes =
      processes.filterMap Process.publishes := by
  induction processes generalizing i with
  | nil => rfl
  | cons first rest ih =>
    cases i with
    | zero =>
      have hfst : first = process := some_inj.mp hproc
      rw [set_cons_zero, filterMap_cons, filterMap_cons, hnext, hfst]
    | succ i =>
      rw [set_cons_succ, filterMap_cons, filterMap_cons, ih hproc]

theorem artifacts_step (store : Store) (turn : Turn) :
    artifacts (store.step host ident turn) = artifacts store := by
  rcases step_cases host ident store turn with hsame | ⟨read, hproc, hstep⟩ |
      ⟨artifact, state, next, nextState, hproc, -, hstep⟩
  · rw [hsame]
  · rw [hstep]
    exact artifacts_set hproc rfl
  · rw [hstep]
    exact artifacts_set hproc rfl

/-! ## What holds in every run -/

def Process.read : Process → Option ReadState
  | .lookup read | .publish _ (.reading _ read) | .publish _ (.rechecking _ read) => some read
  | .publish _ .waiting | .publish _ (.detaching _) | .publish _ (.installing _)
  | .publish _ (.done _) => none

/-- Readings of the first entry have seen nothing else. -/
def ReadsOnly (host : Host) (ident : CacheEntryIdentity) (first : Entry)
    (process : Process) : Prop :=
  ∀ read, process.read = some read → ∃ count, read = (observe host ident first)^[count] .start

/-- Until the first entry gives way, all readings are of it. From then on there is no entry, or
one that a publisher has prepared. -/
structure Sound (host : Host) (ident : CacheEntryIdentity) (init store : Store) : Prop where
  artifacts : artifacts store = artifacts init
  prepared : ∀ artifact state, .publish artifact state ∈ store.processes →
    Prepared host ident artifact state
  entry : (store.entry = init.entry ∧
      ∀ process ∈ store.processes, ReadsOnly host ident init.entry process) ∨
    store.entry = none ∨
    ∃ artifact ∈ Salicin.Caching.artifacts init, Holds host ident store.entry artifact

theorem readsOnly_start (host : Host) (ident : CacheEntryIdentity) (first : Entry)
    (hread : ∀ read, process.read = some read → read = .start) :
    ReadsOnly host ident first process :=
  fun read h => ⟨0, hread read h⟩

theorem ReadsOnly.observe {first : Entry} {read : ReadState}
    (hproc : ReadsOnly host ident first process) (hread : process.read = some read)
    {next : Process} (hnext : next.read = some (Salicin.Caching.observe host ident first read)) :
    ReadsOnly host ident first next := by
  obtain ⟨count, rfl⟩ := hproc read hread
  intro read hread
  rw [hnext] at hread
  refine ⟨count + 1, ?_⟩
  rw [iterate_succ_apply']
  exact (some_inj.mp hread).symm

theorem read_attempt (artifact : CacheArtifact) (attempts : Nat) :
    ∀ read, (Process.publish artifact (attempt attempts)).read = some read → read = .start := by
  intro read hread
  cases attempts with
  | zero => cases hread
  | succ attempts => exact (some_inj.mp hread).symm

/-- A turn of a publisher that leaves the first entry in its place. -/
theorem Moves.readsOnly {next : Entry}
    (hmoves : Moves host ident artifact entry state next nextState)
    (hreads : ReadsOnly host ident entry (.publish artifact state)) :
    ReadsOnly host ident entry (.publish artifact nextState) := by
  cases hmoves with
  | rejected | found _ | installed _ _ | overtaken _ | ended _ _ | absent | invalid _
  | detached _ _ => exact fun _ h => by cases h
  | prepared _ _ => exact readsOnly_start host ident entry (read_attempt artifact _)
  | looked _ => exact hreads.observe rfl rfl
  | vanished _ _ => exact readsOnly_start host ident entry (read_attempt artifact _)
  | refused _ _ | occupied _ _ _ =>
    exact readsOnly_start host ident entry fun _ h => (some_inj.mp h).symm
  | @resumed _ resume _ =>
    cases resume with
    | none => exact fun _ h => by cases h
    | some attempts => exact readsOnly_start host ident entry (read_attempt artifact _)
  | relooked _ => exact hreads.observe rfl rfl

theorem Moves.entry_cases {next : Entry}
    (hmoves : Moves host ident artifact entry state next nextState)
    (hprep : Prepared host ident artifact state) :
    next = entry ∨ next = none ∨ Holds host ident next artifact := by
  cases hmoves with
  | detached _ _ => exact .inr (.inl rfl)
  | installed _ _ => exact .inr (.inr hprep)
  | rejected | prepared _ _ | found _ | absent | invalid _ | looked _ | vanished _ _
  | refused _ _ | occupied _ _ _ | overtaken _ | resumed | relooked _ | ended _ _ =>
    exact .inl rfl

theorem mem_of_set {processes : List Process} {i : Nat} {next : Process}
    (h : process ∈ processes.set i next) : process ∈ processes ∨ process = next :=
  mem_or_eq_of_mem_set h

variable {init : Store}

theorem Sound.step (hsound : Sound host ident init store) (turn : Turn) :
    Sound host ident init (store.step host ident turn) where
  artifacts := (artifacts_step store turn).trans hsound.artifacts
  prepared := by
    intro artifact state hmem
    rcases step_cases host ident store turn with hsame | ⟨read, hproc, hstep⟩ |
        ⟨publisher, before, next, after, hproc, hmoves, hstep⟩
    · rw [hsame] at hmem
      exact hsound.prepared artifact state hmem
    · rw [hstep] at hmem
      rcases mem_of_set hmem with hmem | hmem
      · exact hsound.prepared artifact state hmem
      · cases hmem
    · rw [hstep] at hmem
      rcases mem_of_set hmem with hmem | hmem
      · exact hsound.prepared artifact state hmem
      · cases hmem
        exact hmoves.keeps_prepared (hsound.prepared _ _ (mem_of_getElem? hproc))
  entry := by
    rcases step_cases host ident store turn with hsame | ⟨read, hproc, hstep⟩ |
        ⟨publisher, before, next, after, hproc, hmoves, hstep⟩
    · rw [hsame]
      exact hsound.entry
    · rw [hstep]
      refine hsound.entry.imp_left fun hfst => ⟨hfst.1, fun process hmem => ?_⟩
      rcases mem_of_set hmem with hmem | rfl
      · exact hfst.2 process hmem
      · have hreads := hfst.2 _ (mem_of_getElem? hproc)
        rw [hfst.1]
        exact hreads.observe rfl rfl
    · rw [hstep]
      have hprep := hsound.prepared _ _ (mem_of_getElem? hproc)
      have hartifact : publisher ∈ Salicin.Caching.artifacts init := by
        rw [← hsound.artifacts]
        exact mem_artifacts hproc
      rcases hmoves.entry_cases hprep with hsame | hnone | hholds
      · rw [hsame] at hmoves ⊢
        refine hsound.entry.imp_left fun hfst => ⟨hfst.1, fun process hmem => ?_⟩
        rcases mem_of_set hmem with hmem | rfl
        · exact hfst.2 process hmem
        · have hreads := hfst.2 _ (mem_of_getElem? hproc)
          rw [hfst.1] at hmoves
          exact hmoves.readsOnly hreads
      · exact .inr (.inl hnone)
      · exact .inr (.inr ⟨publisher, hartifact, hholds⟩)

theorem Sound.run (hsound : Sound host ident init store) (turns : List Turn) :
    Sound host ident init (store.run host ident turns) := by
  induction turns generalizing store with
  | nil => exact hsound
  | cons turn rest ih => exact ih (hsound.step turn)

theorem sound_of_fresh (hfresh : ∀ process ∈ init.processes, process.fresh) :
    Sound host ident init init where
  artifacts := rfl
  prepared := by
    intro artifact state hmem
    have hstate := hfresh _ hmem
    cases state with
    | waiting => trivial
    | reading _ _ | detaching _ | installing _ | rechecking _ _ | done _ => cases hstate
  entry := by
    refine .inl ⟨rfl, fun process hmem => readsOnly_start host ident _ fun read hread => ?_⟩
    have hstate := hfresh _ hmem
    cases process with
    | lookup first =>
      cases first with
      | start => exact (some_inj.mp hread).symm
      | entryFound | metadataFound | metadataRead _ | payloadFound _ | finished _ => cases hstate
    | publish artifact state =>
      cases state with
      | waiting => cases hread
      | reading _ _ | detaching _ | installing _ | rechecking _ _ | done _ => cases hstate

/-! ## What publishers report -/

theorem observe_none {read : ReadState} {valid : CacheArtifact}
    (hread : observe host ident none read = .finished (.hit valid)) :
    read = .finished (.hit valid) := by
  cases read with
  | start | entryFound | metadataFound | metadataRead _ | payloadFound _ => cases hread
  | finished res => exact hread

/-- What stands under the path is valid at the moment at which a reader finds it so. -/
theorem Sound.valid_of_observe (hsound : Sound host ident init store)
    (hproc : process ∈ store.processes) {read : ReadState} (hread : process.read = some read)
    (hopen : ∀ res, read ≠ .finished res) {valid : CacheArtifact}
    (hobserve : observe host ident store.entry read = .finished (.hit valid)) :
    ∃ artifact, Holds host ident store.entry artifact := by
  rcases hsound.entry with ⟨hfst, hreads⟩ | hnone | ⟨artifact, -, hholds⟩
  · obtain ⟨count, rfl⟩ := hreads process hproc read hread
    rw [hfst] at hobserve ⊢
    have hnext : (observe host ident init.entry)^[count + 1] .start =
        .finished (.hit valid) := by
      rw [iterate_succ_apply']
      exact hobserve
    exact ⟨valid, readThrough_of_iterate hnext⟩
  · rw [hnone] at hobserve
    exact absurd (observe_none hobserve) (hopen _)
  · exact ⟨artifact, hholds⟩

theorem attempt_ne_ok (attempts : Nat) (outcome : CachePublishOutcome) :
    attempt attempts ≠ .done (.ok outcome) := by
  cases attempts with
  | zero => exact fun h => by cases h
  | succ attempts => exact fun h => by cases h

/-- A publisher ends well by its own rename, or by a look that ends a reading. -/
theorem Moves.ends_well {after : PublishState} {next : Entry} {outcome : CachePublishOutcome}
    (hmoves : Moves host ident artifact entry state next after)
    (hprep : Prepared host ident artifact state) (hopen : ∀ ended, state ≠ .done ended)
    (hafter : after = .done (.ok outcome)) :
    Holds host ident next artifact ∨
      (next = entry ∧ ∃ read valid, (Process.publish artifact state).read = some read ∧
        (∀ res, read ≠ .finished res) ∧
        observe host ident entry read = .finished (.hit valid)) := by
  cases hmoves with
  | found hread => exact .inr ⟨rfl, _, _, rfl, hprep.2, hread⟩
  | overtaken hread => exact .inr ⟨rfl, _, _, rfl, hprep.2, hread⟩
  | installed _ _ => exact .inl hprep
  | ended _ _ => exact absurd rfl (hopen _)
  | prepared _ _ | vanished _ _ => exact absurd hafter (attempt_ne_ok _ _)
  | @resumed _ resume _ =>
    cases resume with
    | none => cases hafter
    | some attempts => exact absurd hafter (attempt_ne_ok _ _)
  | rejected | absent | invalid _ | looked _ | detached _ _ | refused _ _ | occupied _ _ _
  | relooked _ => cases hafter

/-- A publisher ends well only with a valid entry under the path. -/
theorem Sound.outcome (hsound : Sound host ident init store) {turn : Turn}
    {artifact : CacheArtifact} {outcome : CachePublishOutcome}
    (hproc : store.processes[turn.index]? = some (.publish artifact state))
    (hopen : ∀ ended, state ≠ .done ended)
    (hdone : (store.step host ident turn).processes[turn.index]? =
      some (.publish artifact (.done (.ok outcome)))) :
    ∃ valid, Holds host ident (store.step host ident turn).entry valid := by
  have hmem := mem_of_getElem? hproc
  have hprep := hsound.prepared artifact state hmem
  rcases step_cases host ident store turn with
      hsame | ⟨read, hlookup, -⟩ | ⟨publisher, before, next, after, hbefore, hmoves, hstep⟩
  · rw [hsame, hproc] at hdone
    cases hdone
    exact absurd rfl (hopen _)
  · rw [hproc] at hlookup
    cases hlookup
  · rw [hproc] at hbefore
    cases hbefore
    have hlt : turn.index < store.processes.length := (List.getElem?_eq_some_iff.mp hproc).1
    rw [hstep, List.getElem?_set_self hlt, some_inj, Process.publish.injEq] at hdone
    rw [hstep]
    rcases hmoves.ends_well hprep hopen hdone.2 with hholds |
        ⟨hsame, read, valid, hread, hunfinished, hobserve⟩
    · exact ⟨artifact, hholds⟩
    · rw [hsame]
      exact hsound.valid_of_observe hmem hread hunfinished hobserve

end Salicin.Caching
