import Salicin.Editor.Messages
import Salicin.Editor.SessionRuns

/-!
# The language server

The server of `lsp.rs`: its answers to messages, and its traffic with the thread that analyses
snapshots.
-/

namespace Salicin.Editor

/-! ## Analyses -/

inductive DiagnosticPhase where
  | lexer
  | parser
  | resolver
  | semantic

def phaseName : DiagnosticPhase → String
  | .lexer => "lexer"
  | .parser => "parser"
  | .resolver => "resolver"
  | .semantic => "semantic"

/-- A token, with the type that its kind has in the legend. -/
structure EditorToken where
  semanticTokenType : Option Nat
  range : EditorRange

structure EditorDiagnostic where
  document : String
  phase : DiagnosticPhase
  code : String
  message : String
  range : Option EditorRange

structure WorkspaceDocumentAnalysis where
  path : String
  tokens : List EditorToken

structure WorkspaceAnalysis (Index : Type) where
  documents : List WorkspaceDocumentAnalysis
  diagnostics : List EditorDiagnostic
  semanticIndex : Index

/-- What the server takes from the compiler: the tokens of a text, the findings of a check of
packages, and what the index of a checked workspace answers. -/
structure Compiler (Index : Type) where
  editorTokens : String → List EditorToken
  examine : List SourcePackage → DocumentTarget → List EditorDiagnostic × Index
  definition : Index → String → SemanticPosition → Except String Value
  references : Index → String → SemanticPosition → Bool → Except String Value
  hover : Index → String → SemanticPosition → Except String Value
  prepareRename : Index → String → SemanticPosition → Except String Value
  rename : WorkspaceSnapshot → Index → String → SemanticPosition → String → Except String Value

/-- Every source has a document, also one that cannot be read. -/
def analyzeWorkspacePackages {Index : Type} (compiler : Compiler Index)
    (packages : List SourcePackage) (target : DocumentTarget) : WorkspaceAnalysis Index where
  documents := (packages.flatMap SourcePackage.sources).map fun source =>
    ⟨source.path, compiler.editorTokens source.source⟩
  diagnostics := (compiler.examine packages target).1
  semanticIndex := (compiler.examine packages target).2

/-! ## The server and what it sends -/

inductive Lifecycle where
  | waitingForInitialize
  | running
  | shutdown
deriving DecidableEq

inductive QueryKind where
  | semanticTokens
  | definition
  | references
  | hover
  | prepareRename
  | rename
deriving DecidableEq

structure PendingQuery where
  id : Value
  params : Value
  snapshot : WorkspaceSnapshotId
  kind : QueryKind

/-- A message to the client. Answers to queries are told from other responses, and diagnostics
without a place in a document from other logs. -/
inductive Sent where
  | response (id result : Value)
  | failure (id : Value) (code : Int) (message : String)
  | answer (id : Value) (kind : QueryKind) (params : Value) (result : Except String Value)
  | diagnostics (params : Value)
  | unplaced (diagnostic : EditorDiagnostic)
  | log (message : String)

def jsonRpcError (id : Value) (code : Int) (message : String) : Value :=
  .object [("error", .object [("code", .number (.int code)), ("message", .string message)]),
    ("id", id), ("jsonrpc", .string "2.0")]

def logMessage (message : String) : Value :=
  .object [("jsonrpc", .string "2.0"), ("method", .string "window/logMessage"),
    ("params", .object [("message", .string message), ("type", .ofNat 1)])]

def Sent.value : Sent → Value
  | .response id result | .answer id _ _ (.ok result) =>
    .object [("id", id), ("jsonrpc", .string "2.0"), ("result", result)]
  | .failure id code message => jsonRpcError id code message
  | .answer id kind _ (.error message) =>
    jsonRpcError id (if kind = .semanticTokens then -32602 else -32803) message
  | .diagnostics params =>
    .object [("jsonrpc", .string "2.0"),
      ("method", .string "textDocument/publishDiagnostics"), ("params", params)]
  | .unplaced diagnostic =>
    logMessage (String.join [phaseName diagnostic.phase, " diagnostic for ",
      diagnostic.document, " has no exact source range: ", diagnostic.message])
  | .log message => logMessage message

section
variable {Index : Type}

structure Server (Index : Type) where
  session : WorkspaceSession
  lifecycle : Lifecycle
  latestAnalysis : Option (WorkspaceSnapshotId × WorkspaceAnalysis Index)
  requestedAnalysis : Option WorkspaceSnapshotId
  pendingQueries : List PendingQuery

def newServer (session : WorkspaceSession) : Server Index where
  session := session
  lifecycle := .waitingForInitialize
  latestAnalysis := none
  requestedAnalysis := none
  pendingQueries := []

/-- The server with what it has written and the snapshots on their way to the analysis. A write
that fails ends the server, and is left out. -/
structure World (Index : Type) extends Server Index where
  written : List Sent
  sent : List WorkspaceSnapshot

def World.write (world : World Index) (message : Sent) : World Index :=
  { world with written := world.written ++ [message] }

def World.writeAll (world : World Index) (messages : List Sent) : World Index :=
  { world with written := world.written ++ messages }

/-! ## Queries -/

def validateSemanticDocument (session : WorkspaceSession) (params : Value) :
    Except String Unit := do
  let document ← requiredObject params "textDocument"
  let uri ← requiredString document "uri"
  let path ← fileUriToPath uri
  if session.snapshot.documents.any fun document => document.path == path then return ()
  else throw s!"unknown workspace document `{path}`"

def validateNavigationPosition (session : WorkspaceSession) (params : Value) :
    Except String Unit := do
  validateSemanticDocument session params
  let _ ← navigationPosition params

/-- The deltas of the tokens behind a position. -/
def encodeFrom (first : Bool) (previousLine previousStart : Nat) : List EditorToken → List Nat
  | [] => []
  | token :: rest =>
    let length := token.range.finish.utf16Character - token.range.start.utf16Character
    match token.semanticTokenType with
    | none => encodeFrom first previousLine previousStart rest
    | some tokenType =>
      if token.range.start.line ≠ token.range.finish.line ∨ length = 0 then
        encodeFrom first previousLine previousStart rest
      else
        let deltaLine :=
          if first then token.range.start.line else token.range.start.line - previousLine
        let deltaStart :=
          if first ∨ deltaLine ≠ 0 then token.range.start.utf16Character
          else token.range.start.utf16Character - previousStart
        [deltaLine, deltaStart, length, tokenType, 0] ++
          encodeFrom false token.range.start.line token.range.start.utf16Character rest

def encodeSemanticTokens (tokens : List EditorToken) : List Nat := encodeFrom true 0 0 tokens

namespace Server

def semanticTokens (server : Server Index) (params : Value) : Except String Value := do
  let document ← requiredObject params "textDocument"
  let uri ← requiredString document "uri"
  let path ← fileUriToPath uri
  match server.latestAnalysis with
  | none => throw "workspace analysis is not available"
  | some (snapshot, analysis) =>
    match analysis.documents.find? fun document => document.path == path with
    | none => throw s!"unknown workspace document `{path}`"
    | some document =>
      return .object [
        ("data", .array ((encodeSemanticTokens document.tokens).map .ofNat)),
        ("resultId", .string s!"{snapshot.session}:{snapshot.revision}")]

def currentAnalysis (server : Server Index) : Except String (WorkspaceAnalysis Index) :=
  match server.latestAnalysis.filter fun latest => latest.1 = server.session.snapshotId with
  | some latest => .ok latest.2
  | none => .error "workspace analysis is not available"

variable (compiler : Compiler Index)

def definition (server : Server Index) (params : Value) : Except String Value := do
  let (path, position) ← navigationPosition params
  let analysis ← server.currentAnalysis
  compiler.definition analysis.semanticIndex path position

def references (server : Server Index) (params : Value) : Except String Value := do
  let (path, position) ← navigationPosition params
  match ((params.get "context").bind (Value.get "includeDeclaration")).bind Value.asBool with
  | none => throw "references requires boolean context.includeDeclaration"
  | some includeDeclaration =>
    let analysis ← server.currentAnalysis
    compiler.references analysis.semanticIndex path position includeDeclaration

def hover (server : Server Index) (params : Value) : Except String Value := do
  let (path, position) ← navigationPosition params
  let analysis ← server.currentAnalysis
  compiler.hover analysis.semanticIndex path position

def prepareRename (server : Server Index) (params : Value) : Except String Value := do
  let (path, position) ← navigationPosition params
  let analysis ← server.currentAnalysis
  compiler.prepareRename analysis.semanticIndex path position

def rename (server : Server Index) (params : Value) : Except String Value := do
  let (path, position) ← navigationPosition params
  let newName ← renameName params
  let analysis ← server.currentAnalysis
  compiler.rename server.session.snapshot analysis.semanticIndex path position newName

def query (server : Server Index) (kind : QueryKind) (params : Value) : Except String Value :=
  match kind with
  | .semanticTokens => server.semanticTokens params
  | .definition => server.definition compiler params
  | .references => server.references compiler params
  | .hover => server.hover compiler params
  | .prepareRename => server.prepareRename compiler params
  | .rename => server.rename compiler params

/-- Whether the latest analysis is that of the current snapshot. -/
def upToDate (server : Server Index) : Bool :=
  match server.latestAnalysis with
  | some (snapshot, _) => snapshot = server.session.snapshotId
  | none => false

end Server

/-! ## Handlers -/

namespace World

def scheduleAnalysis (world : World Index) : World Index :=
  let snapshot := world.session.snapshot
  if world.requestedAnalysis = some snapshot.id then world
  else { world with
    requestedAnalysis := some snapshot.id
    sent := world.sent ++ [snapshot] }

def enqueue (world : World Index) (id : Value) (kind : QueryKind) (params : Value) : World Index :=
  let request : PendingQuery := ⟨id, params, world.session.snapshotId, kind⟩
  scheduleAnalysis { world with pendingQueries := world.pendingQueries ++ [request] }

def invalidateSupersededRequests (world : World Index) : World Index :=
  let current := world.session.snapshotId
  let superseded := world.pendingQueries.filter fun request => request.snapshot ≠ current
  { world with
    pendingQueries := world.pendingQueries.filter fun request => request.snapshot = current
    written := world.written ++
      superseded.map fun request => .failure request.id (-32801) "Content modified" }

def cancelRequest (world : World Index) (params : Value) : World Index :=
  match params.get "id" with
  | none => world
  | some id =>
    match world.pendingQueries.findIdx? fun request => request.id == id with
    | none => world
    | some index =>
      { world with
        pendingQueries := world.pendingQueries.eraseIdx index
        written := world.written ++ (world.pendingQueries[index]?.map fun request =>
          Sent.failure request.id (-32800) "Request cancelled").toList }

def cancelAllPending (world : World Index) (code : Int) (message : String) : World Index :=
  { world with
    pendingQueries := []
    written := world.written ++
      world.pendingQueries.map fun request => .failure request.id code message }

def writeQueryResponse (compiler : Compiler Index) (world : World Index) (id : Value)
    (kind : QueryKind) (params : Value) : World Index :=
  world.write (.answer id kind params (world.query compiler kind params))

end World

def workspaceError (error : WorkspaceSessionError) : String :=
  "document synchronization rejected: " ++
    match error with
    | .duplicateDocument document => s!"duplicate workspace document `{document}`"
    | .unknownDocument document => s!"unknown workspace document `{document}`"
    | .documentAlreadyOpen document => s!"workspace document `{document}` is already open"
    | .documentNotOpen document => s!"workspace document `{document}` is not open"
    | .readOnlyDocument document => s!"dependency-owned document `{document}` is read-only"
    | .staleDocumentVersion document current received =>
      s!"workspace document `{document}` has version {current}; rejected stale version " ++
        s!"{received}"
    | .revisionExhausted => "workspace snapshot revision space is exhausted"

/-! ## Document changes -/

def didOpen (params : Value) : Except String Operation := do
  let document ← requiredObject params "textDocument"
  let uri ← requiredString document "uri"
  let path ← fileUriToPath uri
  let version ← requiredI64 document "version"
  let text ← requiredString document "text"
  return .openDocument path version text

def didChange (params : Value) : Except String Operation := do
  let document ← requiredObject params "textDocument"
  let uri ← requiredString document "uri"
  let path ← fileUriToPath uri
  let version ← requiredI64 document "version"
  match (params.get "contentChanges").bind Value.asArray with
  | none => throw "didChange requires contentChanges"
  | some [change] =>
    if (change.get "range").isSome then
      throw "Salicin accepts exactly one full-text didChange update"
    else
      match change.asObject with
      | none => throw "didChange content must be an object"
      | some change =>
        let text ← requiredString change "text"
        return .changeDocument path version text
  | some _ => throw "Salicin accepts exactly one full-text didChange update"

def didSave (params : Value) : Except String Operation := do
  let document ← requiredObject params "textDocument"
  let uri ← requiredString document "uri"
  let path ← fileUriToPath uri
  return .saveDocument path ((params.get "text").bind Value.asStr)

def didClose (params : Value) : Except String Operation := do
  let document ← requiredObject params "textDocument"
  let uri ← requiredString document "uri"
  let path ← fileUriToPath uri
  return .closeDocument path

/-- The change that a notification asks for, if it is one of the four. -/
def documentChange (method : String) (params : Value) : Option (Except String Operation) :=
  if method = "textDocument/didOpen" then some (didOpen params)
  else if method = "textDocument/didChange" then some (didChange params)
  else if method = "textDocument/didSave" then some (didSave params)
  else if method = "textDocument/didClose" then some (didClose params)
  else none

/-! ## Messages -/

namespace World

/-- The session takes part in the change, and the error of either is a text. -/
def synchronize (world : World Index) (change : Except String Operation) :
    World Index × Except String Unit :=
  match change with
  | .error message => (world, .error message)
  | .ok operation =>
    match operation.perform world.session with
    | .ok _ session => ({ world with session := session }, .ok ())
    | .error error session => ({ world with session := session }, .error (workspaceError error))

def handleNotification (world : World Index) (method : String) (params : Value) : World Index :=
  if world.lifecycle ≠ .running then world
  else if method = "initialized" then world.scheduleAnalysis
  else if method = "$/cancelRequest" then world.cancelRequest params
  else
    match documentChange method params with
    | none => world
    | some change =>
      match world.synchronize change with
      | (world, .ok ()) => world.invalidateSupersededRequests.scheduleAnalysis
      | (world, .error message) => world.write (.log message)

end World

def initializeResult : Value :=
  .object [
    ("capabilities", .object [
      ("definitionProvider", .bool true),
      ("hoverProvider", .bool true),
      ("positionEncoding", .string "utf-16"),
      ("referencesProvider", .bool true),
      ("renameProvider", .object [("prepareProvider", .bool true)]),
      ("semanticTokensProvider", .object [
        ("full", .bool true),
        ("legend", .object [
          ("tokenModifiers", .array []),
          ("tokenTypes", .array [.string "keyword", .string "variable", .string "typeParameter",
            .string "string", .string "number", .string "operator"])])]),
      ("textDocumentSync", .object [
        ("change", .ofNat 1),
        ("openClose", .bool true),
        ("save", .object [("includeText", .bool true)])])]),
    ("serverInfo", .object [("name", .string "salic"), ("version", .string "0.258.0")])]

def navigationKind (method : String) : Option QueryKind :=
  if method = "textDocument/definition" then some .definition
  else if method = "textDocument/references" then some .references
  else if method = "textDocument/hover" then some .hover
  else if method = "textDocument/prepareRename" then some .prepareRename
  else if method = "textDocument/rename" then some .rename
  else none

namespace World
variable (compiler : Compiler Index)

/-- `none` where the result that validation promises is missing. -/
def handleSemanticTokens (world : World Index) (id params : Value) : Option (World Index) :=
  match validateSemanticDocument world.session params with
  | .error message => some (world.write (.failure id (-32602) message))
  | .ok () =>
    if world.upToDate then
      match world.semanticTokens params with
      | .ok result => some (world.write (.answer id .semanticTokens params (.ok result)))
      | .error _ => none
    else some (world.enqueue id .semanticTokens params)

def handleNavigation (world : World Index) (id : Value) (kind : QueryKind) (params : Value) :
    World Index :=
  match validateNavigationPosition world.session params with
  | .error message => world.write (.failure id (-32602) message)
  | .ok () =>
    if kind = .rename ∧ ¬ (renameName params).isOk then
      world.write (.failure id (-32602) "rename requires string newName")
    else if world.upToDate then world.writeQueryResponse compiler id kind params
    else world.enqueue id kind params

def handleRequest (world : World Index) (id : Value) (method : String) (params : Value) :
    Option (World Index) :=
  if method = "initialize" then
    if world.lifecycle = .waitingForInitialize then
      let world := { world with lifecycle := .running }
      some (world.write (.response id initializeResult))
    else some (world.write (.failure id (-32600) "initialize may be requested only once"))
  else if method = "shutdown" then
    if world.lifecycle = .running then
      let world := { world with lifecycle := .shutdown }
      some ((world.cancelAllPending (-32800) "Request cancelled").write (.response id .null))
    else some (world.write (.failure id (-32600) "server is not running"))
  else if world.lifecycle ≠ .running then
    some (world.write (.failure id (-32002) "server is not initialized"))
  else if method = "textDocument/semanticTokens/full" then world.handleSemanticTokens id params
  else
    match navigationKind method with
    | some kind => some (world.handleNavigation compiler id kind params)
    | none => some (world.write (.failure id (-32601) "Method not found"))

/-- What becomes of a message, and the exit code of an `exit`. -/
def handleMessage (world : World Index) (message : Value) : Option (World Index × Option Int) :=
  match message.asObject with
  | none => some (world.write (.failure .null (-32600) "Invalid Request"), none)
  | some object =>
    let id := object.lookup "id"
    match (object.lookup "method").bind Value.asStr with
    | none => some (world.write (.failure (id.getD .null) (-32600) "Invalid Request"), none)
    | some method =>
      if (object.lookup "jsonrpc").bind Value.asStr ≠ some "2.0" then
        some (world.write (.failure (id.getD .null) (-32600) "Invalid Request"), none)
      else
        let params := (object.lookup "params").getD .null
        match id with
        | none =>
          if method = "exit" then
            some (world, some (if world.lifecycle = .shutdown then 0 else 1))
          else some (world.handleNotification method params, none)
        | some id => (world.handleRequest compiler id method params).map (·, none)

/-! ## Completed analyses -/

def lspDiagnostic (diagnostic : EditorDiagnostic) : Option Value :=
  diagnostic.range.map fun range =>
    .object [("code", .string diagnostic.code),
      ("data", .object [("phase", .string (phaseName diagnostic.phase))]),
      ("message", .string diagnostic.message), ("range", lspRange range),
      ("severity", .ofNat 1), ("source", .string "salicin")]

/-- The parameters of `textDocument/publishDiagnostics` for a document. -/
def publishParams (analysis : WorkspaceAnalysis Index) (versions : List (String × Option Int))
    (document : WorkspaceDocumentAnalysis) : Value :=
  let diagnostics := (analysis.diagnostics.filter fun diagnostic =>
    diagnostic.document == document.path).filterMap lspDiagnostic
  let version := (versions.find? fun entry => entry.1 == document.path).bind Prod.snd
  .object ([("diagnostics", .array diagnostics), ("uri", .string (pathToFileUri document.path))] ++
    (version.map fun version => ("version", Value.number (.int version))).toList)

/-- The diagnostics that have no place in a document. -/
def unplacedDiagnostics (analysis : WorkspaceAnalysis Index) : List EditorDiagnostic :=
  analysis.diagnostics.filter fun diagnostic =>
    diagnostic.range.isNone || !(analysis.documents.any fun document =>
      document.path == diagnostic.document)

/-- The body of the loop over the queries that have waited. -/
def answerPending (snapshot : WorkspaceSnapshotId) (world : World Index)
    (request : PendingQuery) : World Index :=
  if request.snapshot ≠ snapshot then
    world.write (.failure request.id (-32801) "Content modified")
  else world.writeQueryResponse compiler request.id request.kind request.params

/-- The diagnostics of an analysis are published, and the analysis becomes the latest. -/
def publish (world : World Index)
    (completed : WorkspaceSnapshotAnalysis (WorkspaceAnalysis Index)) : World Index :=
  let analysis := completed.analysis
  let published := (world.writeAll (analysis.documents.map fun document =>
    .diagnostics (publishParams analysis completed.documentVersions document))).writeAll
      ((unplacedDiagnostics analysis).map .unplaced)
  { published with latestAnalysis := some (completed.id, analysis) }

def answerAllPending (world : World Index) (snapshot : WorkspaceSnapshotId) : World Index :=
  world.pendingQueries.foldl (answerPending compiler snapshot)
    { world with pendingQueries := [] }

/-- The analysis that the session accepts is that of the completed one. -/
def acceptAndPublish (world : World Index)
    (completed : WorkspaceSnapshotAnalysis (WorkspaceAnalysis Index)) : World Index :=
  let requested :=
    if world.requestedAnalysis = some completed.id then none else world.requestedAnalysis
  let world := { world with requestedAnalysis := requested }
  match world.session.acceptAnalysis completed with
  | none => world
  | some _ => (world.publish completed).answerAllPending compiler completed.id

end World

/-! ## The whole system -/

/-- The server, the analyses on their way to it, and the exit code once it has ended. -/
structure System (Index : Type) extends World Index where
  completed : List (WorkspaceSnapshotAnalysis (WorkspaceAnalysis Index))
  exitCode : Option Int

inductive Event where
  /-- A message of the client, or `none` for bytes that are no JSON value. -/
  | input (message : Option Value)
  | endOfInput
  /-- The analysis passes over some snapshots and takes the next one. -/
  | analyze (skipped : Nat)
  | completion

namespace System
variable (compiler : Compiler Index)

def start (session : WorkspaceSession) : System Index :=
  { newServer session with written := [], sent := [], completed := [], exitCode := none }

/-- `none` where the server or the analysis panics. Events that cannot take place change
nothing. -/
def step (system : System Index) (event : Event) : Option (System Index) :=
  if system.exitCode.isSome then some system
  else
    match event with
    | .input none =>
      some { system with
        toWorld := system.write (.failure .null (-32700) "Parse error") }
    | .input (some message) =>
      (system.handleMessage compiler message).map fun (world, exitCode) =>
        { system with toWorld := world, exitCode := exitCode }
    | .endOfInput => some { system with exitCode := some 1 }
    | .analyze skipped =>
      match system.sent.drop skipped with
      | [] => some system
      | snapshot :: rest =>
        (snapshot.analyze (analyzeWorkspacePackages compiler)).map fun result =>
          { system with sent := rest, completed := system.completed ++ [result] }
    | .completion =>
      match system.completed with
      | [] => some system
      | result :: rest =>
        some { system with
          toWorld := system.acceptAndPublish compiler result
          completed := rest }

def run (system : System Index) (events : List Event) : Option (System Index) :=
  events.foldlM (step compiler) system

end System

end

end Salicin.Editor
