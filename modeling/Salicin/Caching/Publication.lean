import Salicin.Foundation.Bytes

/-!
# Cache entries

The entries of `incremental_cache.rs`: what a publisher writes for an artifact, and how a reader
makes an artifact of what it finds, look after look.
-/

namespace Salicin.Caching

open TextBytes

inductive CacheTarget where
  | binary
  | library
  | test
deriving DecidableEq

def CacheTarget.asStr : CacheTarget → String
  | .binary => "binary"
  | .library => "library"
  | .test => "test"

/-- A fingerprint stands for its hexadecimal form, and an edition for its name. -/
structure CacheEntryIdentity where
  fingerprint : String
  edition : String
  target : CacheTarget

inductive CacheMissReason where
  | missing
  | unreadable
  | invalidEntryKind
  | invalidMetadata
  | incompatibleMetadata
  | invalidPayload
deriving DecidableEq

structure CacheArtifact where
  llvmIr : String
  testNames : List String
deriving DecidableEq

inductive CacheLookup where
  | hit (artifact : CacheArtifact)
  | miss (reason : CacheMissReason)
deriving DecidableEq

structure CacheMetadata where
  schema : Nat
  kind : String
  fingerprint : String
  compiler : String
  hostOs : String
  hostArch : String
  edition : String
  target : String
  testNames : List String
  testNamesSha256 : String
  payloadBytes : Nat
  payloadSha256 : String
deriving DecidableEq

/-- The compiler's host: its names, and the hashes and the text format of its libraries. -/
structure Host where
  compiler : String
  os : String
  arch : String
  sha256Hex : List UInt8 → String
  encodeMetadata : CacheMetadata → Option (List UInt8)
  decodeMetadata : List UInt8 → Option CacheMetadata

def cacheArtifactSchemaVersion : Nat := 2

def cacheKind : String := "llvm-ir"

def maxMetadataBytes : Nat := 16 * 1024

section
variable (host : Host)

def testNamesDigest (names : List String) : String :=
  host.sha256Hex (LittleEndian.store 8 names.length ++ names.flatMap fun name =>
    LittleEndian.store 8 (encode name).length ++ encode name)

def testNamesAreValid (target : CacheTarget) (names : List String) : Bool :=
  if target = .test then names.all (· ≠ "") && decide names.Nodup else names.isEmpty

def isLowerHexDigest (val : String) : Bool :=
  (encode val).length = 64 &&
    (encode val).all fun byte => 48 ≤ byte && byte ≤ 57 || 97 ≤ byte && byte ≤ 102

namespace CacheMetadata

def forEntry (ident : CacheEntryIdentity) (payloadBytes : Nat) (payloadSha256 : String)
    (testNames : List String) : CacheMetadata where
  schema := cacheArtifactSchemaVersion
  kind := cacheKind
  fingerprint := ident.fingerprint
  compiler := host.compiler
  hostOs := host.os
  hostArch := host.arch
  edition := ident.edition
  target := ident.target.asStr
  testNames := testNames
  testNamesSha256 := testNamesDigest host testNames
  payloadBytes := payloadBytes
  payloadSha256 := payloadSha256

def isCompatibleWith (metadata : CacheMetadata) (ident : CacheEntryIdentity) : Bool :=
  metadata.schema = cacheArtifactSchemaVersion && metadata.kind = cacheKind &&
    metadata.fingerprint = ident.fingerprint && metadata.compiler = host.compiler &&
    metadata.hostOs = host.os && metadata.hostArch = host.arch &&
    metadata.edition = ident.edition && metadata.target = ident.target.asStr &&
    testNamesAreValid ident.target metadata.testNames &&
    metadata.testNamesSha256 = testNamesDigest host metadata.testNames &&
    isLowerHexDigest metadata.payloadSha256

end CacheMetadata

/-! ## What stands under the path of an entry -/

inductive FileNode where
  | missing
  | irregular
  | regular (bytes : List UInt8)

/-- A directory with its two files, and whether it has others. -/
inductive Node where
  | notDirectory
  | directory (metadata payload : FileNode) (others : Bool)

abbrev Entry := Option Node

def Node.metadata : Node → FileNode
  | .notDirectory => .missing
  | .directory metadata _ _ => metadata

def Node.payload : Node → FileNode
  | .notDirectory => .missing
  | .directory _ payload _ => payload

/-! ## Reading -/

/-- How far a reader of an entry is. Every look at the path finds what stands there then. -/
inductive ReadState where
  | start
  | entryFound
  | metadataFound
  | metadataRead (metadata : CacheMetadata)
  | payloadFound (metadata : CacheMetadata)
  | finished (result : CacheLookup)
deriving DecidableEq

/-- The metadata that a reader takes from the bytes of a file. -/
def acceptMetadata (ident : CacheEntryIdentity) (bytes : List UInt8) :
    Except CacheMissReason CacheMetadata :=
  match host.decodeMetadata bytes with
  | none => .error .invalidMetadata
  | some metadata =>
    if host.encodeMetadata metadata ≠ some bytes then .error .invalidMetadata
    else if metadata.isCompatibleWith host ident then .ok metadata
    else .error .incompatibleMetadata

def acceptPayload (metadata : CacheMetadata) (bytes : List UInt8) : CacheLookup :=
  if bytes.length ≠ metadata.payloadBytes ∨ host.sha256Hex bytes ≠ metadata.payloadSha256 then
    .miss .invalidPayload
  else
    match decode bytes with
    | some llvmIr => .hit ⟨llvmIr, metadata.testNames⟩
    | none => .miss .invalidPayload

/-- The next look of `read_entry_at`: at the entry, at its metadata file, into this file, at its
payload file, and into that one. -/
def observe (ident : CacheEntryIdentity) (entry : Entry) : ReadState → ReadState
  | .start =>
    match entry with
    | none => .finished (.miss .missing)
    | some .notDirectory => .finished (.miss .invalidEntryKind)
    | some (.directory _ _ _) => .entryFound
  | .entryFound =>
    match entry.elim .missing Node.metadata with
    | .missing => .finished (.miss .unreadable)
    | .irregular => .finished (.miss .invalidEntryKind)
    | .regular bytes =>
      if bytes.length > maxMetadataBytes then .finished (.miss .invalidMetadata)
      else .metadataFound
  | .metadataFound =>
    match entry.elim .missing Node.metadata with
    | .regular bytes =>
      match acceptMetadata host ident bytes with
      | .ok metadata => .metadataRead metadata
      | .error reason => .finished (.miss reason)
    | _ => .finished (.miss .unreadable)
  | .metadataRead metadata =>
    match entry.elim .missing Node.payload with
    | .regular _ => .payloadFound metadata
    | _ => .finished (.miss .invalidPayload)
  | .payloadFound metadata =>
    match entry.elim .missing Node.payload with
    | .regular bytes => .finished (acceptPayload host metadata bytes)
    | _ => .finished (.miss .invalidPayload)
  | .finished result => .finished result

/-- A reading of an entry that stays as it is. -/
def readThrough (ident : CacheEntryIdentity) (entry : Entry) : ReadState :=
  (observe host ident entry)^[5] .start

/-- An entry is valid where it is read as an artifact. -/
def Holds (ident : CacheEntryIdentity) (entry : Entry) (artifact : CacheArtifact) : Prop :=
  readThrough host ident entry = .finished (.hit artifact)

instance (ident : CacheEntryIdentity) (entry : Entry) (artifact : CacheArtifact) :
    Decidable (Holds host ident entry artifact) :=
  inferInstanceAs (Decidable (_ = _))

/-! ## Writing -/

/-- The directory that a publisher prepares for an artifact. -/
def stage (ident : CacheEntryIdentity) (artifact : CacheArtifact) : Option Node := do
  let payload := encode artifact.llvmIr
  let metadata := CacheMetadata.forEntry host ident payload.length (host.sha256Hex payload)
    artifact.testNames
  let bytes ← host.encodeMetadata metadata
  some (.directory (.regular bytes) (.regular payload) false)

end

end Salicin.Caching

/-!
## Publishers and lookups

`publish` and `lookup` as processes that take turns: a turn is one look at the path of the entry
or one rename. What happens in a publisher's own directories concerns no other process.
-/

namespace Salicin.Caching

inductive CacheStoreError where
  | io
  | publicationContended
deriving DecidableEq

inductive CachePublishOutcome where
  | published
  | alreadyPresent
deriving DecidableEq

def maxPublicationAttempts : Nat := 16

/-- Why the file system may refuse a rename, besides what stands in its way: with an error after
which the loop goes on, or with another one. -/
inductive Fault where
  | contended
  | failed

/-- Where a publisher is. The attempts are those that are left, with the present one. After a
rename that fails it reads the entry again, to go on with some attempts or to report the error. -/
inductive PublishState where
  | waiting
  | reading (attempts : Nat) (read : ReadState)
  | detaching (attempts : Nat)
  | installing (attempts : Nat)
  | rechecking (attempts : Option Nat) (read : ReadState)
  | done (outcome : Except CacheStoreError CachePublishOutcome)
deriving DecidableEq

inductive Process where
  | lookup (read : ReadState)
  | publish (artifact : CacheArtifact) (state : PublishState)
deriving DecidableEq

/-- The loop with these attempts left. -/
def attempt : Nat → PublishState
  | 0 => .done (.error .publicationContended)
  | attempts + 1 => .reading (attempts + 1) .start

section
variable (host : Host) (ident : CacheEntryIdentity)

/-- A directory takes the place of no entry and of an empty one. -/
def replaceable : Entry → Bool
  | none => true
  | some (.directory .missing .missing false) => true
  | some _ => false

/-- The error of a rename onto an entry that stays: a directory that is not empty, or a file. -/
def resumeAfter (attempts : Nat) : Entry → Option Nat
  | some .notDirectory => none
  | _ => some (attempts - 1)

/-- A turn of a publisher, which may change the entry. -/
def publishStep (artifact : CacheArtifact) (entry : Entry) (fault : Option Fault) :
    PublishState → Entry × PublishState
  | .waiting =>
    match stage host ident artifact with
    | none => (entry, .done (.error .io))
    | some staged =>
      if Holds host ident (some staged) artifact ∧ fault = none then
        (entry, attempt maxPublicationAttempts)
      else (entry, .done (.error .io))
  | .reading attempts read =>
    match observe host ident entry read with
    | .finished (.hit _) => (entry, .done (.ok .alreadyPresent))
    | .finished (.miss .missing) => (entry, .installing attempts)
    | .finished (.miss _) => (entry, .detaching attempts)
    | next => (entry, .reading attempts next)
  | .detaching attempts =>
    match fault, entry with
    | none, none => (entry, attempt (attempts - 1))
    | none, some _ => (none, .installing attempts)
    | some _, _ => (entry, .rechecking none .start)
  | .installing attempts =>
    match fault with
    | none =>
      if replaceable entry then (stage host ident artifact, .done (.ok .published))
      else (entry, .rechecking (resumeAfter attempts entry) .start)
    | some .contended => (entry, .rechecking (some (attempts - 1)) .start)
    | some .failed => (entry, .rechecking none .start)
  | .rechecking attempts read =>
    match observe host ident entry read with
    | .finished (.hit _) => (entry, .done (.ok .alreadyPresent))
    | .finished (.miss _) =>
      (entry, attempts.elim (.done (.error .io)) attempt)
    | next => (entry, .rechecking attempts next)
  | .done outcome => (entry, .done outcome)

def Process.step (entry : Entry) (fault : Option Fault) : Process → Entry × Process
  | .lookup read => (entry, .lookup (observe host ident entry read))
  | .publish artifact state =>
    let (entry, state) := publishStep host ident artifact entry fault state
    (entry, .publish artifact state)

/-- The entry of an identity, and the processes that are about it. -/
structure Store where
  entry : Entry
  processes : List Process

/-- A turn of one of the processes. -/
structure Turn where
  index : Nat
  fault : Option Fault

def Store.step (store : Store) (turn : Turn) : Store :=
  match store.processes[turn.index]? with
  | none => store
  | some process =>
    let (entry, next) := process.step host ident store.entry turn.fault
    ⟨entry, store.processes.set turn.index next⟩

def Store.run (store : Store) (turns : List Turn) : Store :=
  turns.foldl (Store.step host ident) store

/-- A process that has not begun. -/
def Process.fresh : Process → Bool
  | .lookup .start => true
  | .publish _ .waiting => true
  | _ => false

end

end Salicin.Caching
