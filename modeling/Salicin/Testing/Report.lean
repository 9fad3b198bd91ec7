import Salicin.Foundation.Bytes

/-!
# The test runtime

What a generated test runner sends over the result pipe: the frames of `std/src/test.sc` and
`runtime/allocator.c`, registration after registration.
-/

namespace Salicin.Testing

/-- The name of the frame format, `SLT1`. -/
def magic : List UInt8 := [0x53, 0x4C, 0x54, 0x31]

def encodeHeader (index : Nat) (status hasMessage : UInt8) (length : Nat) : List UInt8 :=
  magic ++ (LittleEndian.store 8 index ++ ([status, hasMessage, 0, 0] ++
    LittleEndian.store 8 length))

/-- `sali_host_test_report` with an open pipe: the bytes it writes, or `none` where it returns
`-1`. The data are the bytes behind the pointer. -/
def hostReport (index : Nat) (status hasMessage : UInt8) (data : Option (List UInt8))
    (length : Nat) : Option (List UInt8) :=
  if status > 2 || hasMessage > 1 || (status != 1 && hasMessage != 0) ||
    (hasMessage != 0 && data.isNone) then none
  else if status == 1 && hasMessage != 0 then
    data.map fun bytes => encodeHeader index status hasMessage length ++ bytes.take length
  else some (encodeHeader index status hasMessage length)

/-- `send` traps where the host reports an error. -/
def send (index : Nat) (status hasMessage : UInt8) (data : List UInt8) (length : Nat) :
    Option (List UInt8) :=
  hostReport index status hasMessage (some data) length

inductive Outcome where
  | passed
  | failed (message : String)

def reportPass (index : Nat) : Option (List UInt8 × Bool) := do
  let bytes ← send index 0 0 [0] 0
  some (bytes, true)

def reportWithMessage (index : Nat) (message : String) : Option (List UInt8 × Bool) := do
  let bytes ← send index 1 1 (TextBytes.encode message) (TextBytes.encode message).length
  some (bytes, false)

def report (index : Nat) : Outcome → Option (List UInt8 × Bool)
  | .passed => reportPass index
  | .failed message => reportWithMessage index message

/-- The terminal frame and the status of the process. -/
def finish (registrations failures : Nat) : Option (List UInt8 × Int) := do
  let bytes ← send registrations 2 0 [0] failures
  some (bytes, if failures = 0 then 0 else 1)

section
variable {α : Type} (report : Nat → α → Option (List UInt8 × Bool))

/-- The statements of the generated `main`, one for each registration. -/
def reportFrom : Nat → Nat → List α → Option (List UInt8 × Nat)
  | _, failures, [] => some ([], failures)
  | index, failures, outcome :: rest => do
    let (bytes, passed) ← report index outcome
    let (others, total) ← reportFrom (index + 1) (if passed then failures else failures + 1) rest
    some (bytes ++ others, total)

/-- The whole run: what is sent, and the exit code. -/
def runWith (outcomes : List α) : Option (List UInt8 × Int) := do
  let (bytes, failures) ← reportFrom report 0 0 outcomes
  let (last, exitCode) ← finish outcomes.length failures
  some (bytes ++ last, exitCode)

end

def runTests (outcomes : List Outcome) : Option (List UInt8 × Int) := runWith report outcomes

end Salicin.Testing

/-!
## The test report

`parse_test_report` of `main.rs`, which reads the frames of a run back.
-/

namespace Salicin.Testing

structure TestFailure where
  index : Nat
  message : Option String

structure TestRun where
  exitCode : Int
  failures : List TestFailure

def testReportHeaderLength : Nat := 24

def testReportLimit : Nat := 64 * 1024 * 1024

structure Header where
  magic : List UInt8
  index : Nat
  status : UInt8
  hasMessage : UInt8
  reserved : List UInt8
  length : Nat

/-- The fields of a header. `usize` has the width of the fields on the hosts that run tests. -/
def readHeader (bytes : List UInt8) : Header where
  magic := bytes.take 4
  index := LittleEndian.load ((bytes.drop 4).take 8)
  status := bytes.getD 12 0
  hasMessage := bytes.getD 13 0
  reserved := [bytes.getD 14 0, bytes.getD 15 0]
  length := LittleEndian.load ((bytes.drop 16).take 8)

/-- What the loop takes from a frame: the failures of the whole run, or the next position and the
failure that the frame tells of. -/
inductive Frame where
  | terminal (failures : Nat)
  | result (cursor : Nat) (failure : Option TestFailure)

/-- The message of a frame and the position behind it. A length that exceeds the address space
exceeds the report, too. -/
def readMessage (bytes : List UInt8) (cursor index : Nat) (status hasMessage : UInt8)
    (length : Nat) : Except String (Nat × Option String) :=
  if hasMessage = 0 ∧ length = 0 then .ok (cursor, none)
  else if status = 1 ∧ hasMessage = 1 then
    if cursor + length ≤ bytes.length then
      match TextBytes.decode ((bytes.drop cursor).take length) with
      | some message => .ok (cursor + length, some message)
      | none => .error s!"test runner returned invalid UTF-8 for registration {index}"
    else .error s!"test runner returned a truncated message for registration {index}"
  else .error s!"test runner returned an invalid payload for registration {index}"

/-- The body of the loop. -/
def readFrame (bytes : List UInt8) (expected cursor nextIndex : Nat) : Except String Frame :=
  if bytes.length - cursor < testReportHeaderLength then
    .error s!"test runner returned a truncated result header at byte {cursor}"
  else
    let header := readHeader ((bytes.drop cursor).take testReportHeaderLength)
    let next := cursor + testReportHeaderLength
    if header.magic ≠ magic then
      .error s!"test runner returned invalid result magic at byte {cursor}"
    else if header.reserved ≠ [0, 0] then
      .error "test runner returned nonzero reserved result bytes"
    else if header.status = 2 then
      if header.hasMessage ≠ 0 ∨ header.index ≠ expected ∨ nextIndex ≠ expected then
        .error "test runner returned an invalid terminal result"
      else if next ≠ bytes.length then
        .error "test runner returned data after its terminal result"
      else .ok (.terminal header.length)
    else if header.status > 1 ∨ header.hasMessage > 1 ∨ header.index ≠ nextIndex ∨
        header.index ≥ expected then
      .error s!"test runner returned an invalid result for registration {header.index}"
    else do
      let (behind, message) ←
        readMessage bytes next header.index header.status header.hasMessage header.length
      .ok (.result behind
        (if header.status = 1 then some ⟨header.index, message⟩ else none))

/-- The loop, with a bound on its turns that it does not reach: every turn moves on. -/
def readFrames (bytes : List UInt8) (expected : Nat) :
    Nat → Nat → Nat → List TestFailure → Except String (Option Nat × List TestFailure)
  | 0, _, _, failures => .ok (none, failures)
  | turns + 1, cursor, nextIndex, failures =>
    if cursor < bytes.length then do
      match ← readFrame bytes expected cursor nextIndex with
      | .terminal count => .ok (some count, failures)
      | .result behind failure =>
        readFrames bytes expected turns behind (nextIndex + 1) (failures ++ failure.toList)
    else .ok (none, failures)

def parseTestReport (bytes : List UInt8) (expected : Nat) (exitCode : Int) :
    Except String TestRun := do
  let (terminalFailures, failures) ← readFrames bytes expected (bytes.length + 1) 0 0 []
  match terminalFailures with
  | none => .error "test runner omitted its terminal result"
  | some count =>
    if count ≠ failures.length then
      .error s!"test runner reported {count} failures but emitted {failures.length}"
    else
      let expectedExit : Int := if failures.isEmpty then 0 else 1
      if exitCode ≠ expectedExit then
        .error s!"test runner exited with {exitCode}, expected {expectedExit} from its results"
      else .ok ⟨expectedExit, failures⟩

end Salicin.Testing
