import Salicin.Foundation.FallibleLists
import Salicin.Testing.Report

/-!
# The report of a run is read back

The frames that a run sends are read as the failures of the run. A report that is read is that of
a run, in which a failure may also come without a message: the transport has a field for it,
though the runtime sends a message with every failure.
-/

namespace Salicin.Testing

open Nat List TextBytes LittleEndian

/-- What a frame can tell of a registration. -/
inductive Result where
  | passed
  | failed (message : Option String)

def Result.ofOutcome : Outcome → Result
  | .passed => .passed
  | .failed message => .failed (some message)

def Result.failure (i : Nat) : Result → Option TestFailure
  | .passed => none
  | .failed message => some ⟨i, message⟩

def sendResult (i : Nat) : Result → Option (List UInt8 × Bool)
  | .passed => reportPass i
  | .failed (some message) => reportWithMessage i message
  | .failed none => do
    let bytes ← send i 1 0 [0] 0
    some (bytes, false)

def failuresFrom (i : Nat) : List Result → List TestFailure
  | [] => []
  | result :: rest => (result.failure i).toList ++ failuresFrom (i + 1) rest

/-! ## What a run sends -/

def frameOf (i : Nat) : Result → List UInt8
  | .passed => encodeHeader i 0 0 0
  | .failed none => encodeHeader i 1 0 0
  | .failed (some message) =>
    encodeHeader i 1 1 (encode message).length ++ encode message

def framesFrom (i : Nat) : List Result → List UInt8
  | [] => []
  | result :: rest => frameOf i result ++ framesFrom (i + 1) rest

variable (i : Nat)

theorem sendResult_eq (result : Result) :
    sendResult i result =
      some (frameOf i result, (result.failure i).isNone) := by
  rcases result with _ | _ | message
  · rfl
  · rfl
  · have hsend : send i 1 1 (encode message) (encode message).length =
        some (encodeHeader i 1 1 (encode message).length ++
          (encode message).take (encode message).length) := rfl
    rw [sendResult, reportWithMessage, hsend, take_length]
    rfl

theorem reportFrom_sendResult (i failures : Nat) (results : List Result) :
    reportFrom sendResult i failures results =
      some (framesFrom i results, failures + (failuresFrom i results).length) := by
  induction results generalizing i failures with
  | nil => rfl
  | cons result rest ih =>
    rw [reportFrom, sendResult_eq]
    simp only [Option.bind_eq_bind, Option.bind_some]
    rw [ih]
    cases hfail : result.failure i with
    | none => simp [framesFrom, failuresFrom, hfail]
    | some failure =>
      simp [framesFrom, failuresFrom, hfail]
      omega

theorem reportFrom_report (i failures : Nat) (outcomes : List Outcome) :
    reportFrom report i failures outcomes =
      reportFrom sendResult i failures (outcomes.map .ofOutcome) := by
  induction outcomes generalizing i failures with
  | nil => rfl
  | cons outcome rest ih =>
    have hsame : report i outcome = sendResult i (.ofOutcome outcome) := by
      cases outcome <;> rfl
    rw [map_cons, reportFrom, reportFrom, hsame]
    simp only [ih]

/-- The bytes of a run. -/
def encodeRun (results : List Result) : List UInt8 :=
  framesFrom 0 results ++ encodeHeader results.length 2 0 (failuresFrom 0 results).length

def exitCodeOf (results : List Result) : Int := if (failuresFrom 0 results).isEmpty then 0 else 1

theorem runWith_sendResult (results : List Result) :
    runWith sendResult results = some (encodeRun results, exitCodeOf results) := by
  have hfinish : ∀ failures, finish results.length failures =
      some (encodeHeader results.length 2 0 failures, if failures = 0 then 0 else 1) :=
    fun _ => rfl
  rw [runWith, reportFrom_sendResult]
  simp only [Option.bind_eq_bind, Option.bind_some, hfinish, zero_add]
  rw [encodeRun, exitCodeOf]
  cases failuresFrom 0 results <;> rfl

theorem runTests_eq (outcomes : List Outcome) :
    runTests outcomes = runWith sendResult (outcomes.map .ofOutcome) := by
  rw [runTests, runWith, runWith, reportFrom_report, length_map]

/-! ## Headers -/

theorem length_encodeHeader (status hasMessage : UInt8) (len : Nat) :
    (encodeHeader i status hasMessage len).length = testReportHeaderLength := by
  simp [encodeHeader, magic, testReportHeaderLength]

theorem readHeader_append {name first second : List UInt8} (status hasMessage low high : UInt8)
    (hname : name.length = 4) (hfst : first.length = 8) (hsnd : second.length = 8) :
    readHeader (name ++ (first ++ ([status, hasMessage, low, high] ++ second))) =
      ⟨name, load first, status, hasMessage, [low, high],
        load second⟩ := by
  have hbehind : (name ++ (first ++ ([status, hasMessage, low, high] ++ second))).drop 4 =
      first ++ ([status, hasMessage, low, high] ++ second) := drop_left' hname
  have hidx : (first ++ ([status, hasMessage, low, high] ++ second)).take 8 = first :=
    take_left' hfst
  have hmid : (name ++ (first ++ ([status, hasMessage, low, high] ++ second))).drop 12 =
      [status, hasMessage, low, high] ++ second := by
    rw [← append_assoc]
    exact drop_left' (by rw [length_append, hname, hfst])
  have hlast : (name ++ (first ++ ([status, hasMessage, low, high] ++ second))).drop 16 =
      second := by
    rw [← append_assoc, ← append_assoc]
    exact drop_left' (by rw [length_append, length_append, hname, hfst]; rfl)
  have hat : ∀ offset : Nat,
      (name ++ (first ++ ([status, hasMessage, low, high] ++ second))).getD (12 + offset) 0 =
        ([status, hasMessage, low, high] ++ second).getD offset 0 := by
    intro offset
    conv_rhs => rw [← hmid]
    rw [getD_eq_getElem?_getD, getD_eq_getElem?_getD, getElem?_drop]
  have htake : second.take 8 = second := take_of_length_le hsnd.le
  rw [readHeader, hbehind, hidx, hlast, htake, take_left' hname, hat 0, hat 1, hat 2, hat 3]
  rfl

theorem readHeader_encodeHeader (status hasMessage : UInt8) (len : Nat) :
    readHeader (encodeHeader i status hasMessage len) =
      ⟨magic, i % 256 ^ 8, status, hasMessage, [0, 0], len % 256 ^ 8⟩ := by
  rw [encodeHeader, readHeader_append status hasMessage 0 0 rfl (length_store 8 i)
    (length_store 8 len), load_store, load_store]

variable {bytes : List UInt8}

/-- A header that passes its checks is the one that is written for its fields. -/
theorem encodeHeader_readHeader (hlen : bytes.length = testReportHeaderLength)
    (hmagic : (readHeader bytes).magic = magic) (hreserved : (readHeader bytes).reserved = [0, 0]) :
    encodeHeader (readHeader bytes).index (readHeader bytes).status (readHeader bytes).hasMessage
      (readHeader bytes).length = bytes := by
  rw [testReportHeaderLength] at hlen
  -- The bytes are cut at the ends of the fields.
  obtain ⟨status, hasMessage, low, high, hmid⟩ : ∃ status hasMessage low high,
      (bytes.drop 12).take 4 = [status, hasMessage, low, high] := by
    have hfour : ((bytes.drop 12).take 4).length = 4 := by
      rw [length_take, length_drop]
      omega
    generalize (bytes.drop 12).take 4 = middle at hfour
    obtain ⟨a, rest, rfl⟩ := exists_cons_of_length_eq_add_one hfour
    obtain ⟨b, rest, rfl⟩ := exists_cons_of_length_eq_add_one (Nat.succ.inj hfour)
    obtain ⟨c, rest, rfl⟩ := exists_cons_of_length_eq_add_one (Nat.succ.inj (Nat.succ.inj hfour))
    obtain ⟨d, rest, rfl⟩ := exists_cons_of_length_eq_add_one
      (Nat.succ.inj (Nat.succ.inj (Nat.succ.inj hfour)))
    have hnil : rest = [] := length_eq_zero_iff.mp
      (Nat.succ.inj (Nat.succ.inj (Nat.succ.inj (Nat.succ.inj hfour))))
    exact ⟨a, b, c, d, by rw [hnil]⟩
  have hsplit : bytes.take 4 ++ ((bytes.drop 4).take 8 ++
      ([status, hasMessage, low, high] ++ bytes.drop 16)) = bytes := by
    rw [← hmid]
    have hthird : (bytes.drop 12).take 4 ++ bytes.drop 16 = bytes.drop 12 := by
      conv => rhs; rw [← take_append_drop 4 (bytes.drop 12), drop_drop]
    have hsnd : (bytes.drop 4).take 8 ++ bytes.drop 12 = bytes.drop 4 := by
      conv => rhs; rw [← take_append_drop 8 (bytes.drop 4), drop_drop]
    rw [hthird, hsnd, take_append_drop]
  have hname : (bytes.take 4).length = 4 := by
    rw [length_take]
    omega
  have hfst : ((bytes.drop 4).take 8).length = 8 := by
    rw [length_take, length_drop]
    omega
  have hsnd : (bytes.drop 16).length = 8 := by
    rw [length_drop]
    omega
  have hheader := readHeader_append status hasMessage low high hname hfst hsnd
  rw [hsplit] at hheader
  rw [hheader] at hmagic hreserved ⊢
  cases hreserved
  have hidx := store_load ((bytes.drop 4).take 8)
  have hcount := store_load (bytes.drop 16)
  rw [hfst] at hidx
  rw [hsnd] at hcount
  simp only at hmagic ⊢
  rw [encodeHeader, hidx, hcount, ← hmagic, hsplit]

/-! ## Frames that are sent -/

theorem take_encodeHeader (front rest : List UInt8) (i : Nat) (status hasMessage : UInt8)
    (len : Nat) : ((front ++ (encodeHeader i status hasMessage len ++ rest)).drop front.length).take
      testReportHeaderLength = encodeHeader i status hasMessage len := by
  rw [drop_left]
  exact take_left' (length_encodeHeader i status hasMessage len)

theorem readMessage_frameOf {front rest : List UInt8} (message : String) :
    readMessage (front ++ (frameOf i (.failed (some message)) ++ rest))
        (front.length + testReportHeaderLength) i 1 1 (encode message).length =
      .ok (front.length + (frameOf i (.failed (some message))).length, some message) := by
  let header := encodeHeader i 1 1 (encode message).length
  have hheader : header.length = testReportHeaderLength := length_encodeHeader _ _ _ _
  have hframe : frameOf i (.failed (some message)) = header ++ encode message := rfl
  have hbytes : front ++ (frameOf i (.failed (some message)) ++ rest) =
      (front ++ header) ++ (encode message ++ rest) := by
    rw [hframe]
    simp only [append_assoc]
  have hcursor : (front ++ header).length = front.length + testReportHeaderLength := by
    rw [length_append, hheader]
  have hend : front.length + testReportHeaderLength + (encode message).length =
      front.length + (frameOf i (.failed (some message))).length := by
    rw [hframe, length_append, hheader, add_assoc]
  have hfits : front.length + testReportHeaderLength + (encode message).length ≤
      ((front ++ header) ++ (encode message ++ rest)).length := by
    simp only [length_append, hheader]
    omega
  have htext : (((front ++ header) ++ (encode message ++ rest)).drop
      (front.length + testReportHeaderLength)).take (encode message).length =
        encode message := by
    rw [← hcursor, drop_left, take_left]
  have hone : ¬ ((1 : UInt8) = 0 ∧ (encode message).length = 0) := by
    intro h
    exact absurd h.1 (by decide)
  rw [readMessage, if_neg hone, if_pos ⟨rfl, rfl⟩, hbytes, if_pos hfits, htext]
  simp only [decode_encode]
  rw [hend]

variable {expected : Nat}

theorem readFrame_frameOf (front rest : List UInt8) {i : Nat} (result : Result)
    (hidx : i < expected) (hexp : expected < 256 ^ 8)
    (hframe : (frameOf i result).length < 256 ^ 8) :
    readFrame (front ++ (frameOf i result ++ rest)) expected front.length i =
      .ok (.result (front.length + (frameOf i result).length) (result.failure i)) := by
  obtain ⟨status, hasMessage, len, text, hsplit, hlen, hstatus, hmsg, hread,
      hfail⟩ : ∃ (status hasMessage : UInt8) (len : Nat) (text : List UInt8),
      frameOf i result = encodeHeader i status hasMessage len ++ text ∧
      len < 256 ^ 8 ∧ status ≤ 1 ∧ hasMessage ≤ 1 ∧
      readMessage (front ++ (frameOf i result ++ rest))
          (front.length + testReportHeaderLength) i status hasMessage len =
        .ok (front.length + (frameOf i result).length,
          (result.failure i).bind TestFailure.message) ∧
      result.failure i = if status = 1 then
        some ⟨i, (result.failure i).bind TestFailure.message⟩ else none := by
    rcases result with _ | _ | message
    · refine ⟨0, 0, 0, [], (append_nil _).symm, by decide, by decide, by decide, ?_, rfl⟩
      rw [frameOf, length_encodeHeader]
      rfl
    · refine ⟨1, 0, 0, [], (append_nil _).symm, by decide, by decide, by decide, ?_, rfl⟩
      rw [frameOf, length_encodeHeader]
      rfl
    · refine ⟨1, 1, (encode message).length, encode message, rfl, ?_, by decide,
        by decide, readMessage_frameOf i message, rfl⟩
      rw [frameOf, length_append] at hframe
      omega
  have hheader : readHeader (((front ++ (frameOf i result ++ rest)).drop front.length).take
      testReportHeaderLength) = ⟨magic, i, status, hasMessage, [0, 0], len⟩ := by
    rw [hsplit, append_assoc, take_encodeHeader, readHeader_encodeHeader,
      mod_eq_of_lt (hidx.trans hexp), mod_eq_of_lt hlen]
  have hlong : ¬ (front ++ (frameOf i result ++ rest)).length - front.length <
      testReportHeaderLength := by
    rw [hsplit]
    simp only [length_append, length_encodeHeader]
    omega
  have htwo : status ≠ 2 := by
    rintro rfl
    exact absurd hstatus (by decide)
  have hvalid : ¬ (status > 1 ∨ hasMessage > 1 ∨ i ≠ i ∨ i ≥ expected) := by
    rintro (h | h | h | h)
    · exact absurd hstatus (UInt8.not_le.mpr h)
    · exact absurd hmsg (UInt8.not_le.mpr h)
    · exact h rfl
    · omega
  rw [readFrame, if_neg hlong]
  simp only [hheader]
  rw [if_neg (fun h => h rfl), if_neg (fun h => h rfl), if_neg htwo, if_neg hvalid, hread]
  conv => rhs; rw [hfail]
  rfl

theorem readFrame_terminal (front : List UInt8) {failures : Nat} (hexp : expected < 256 ^ 8)
    (hfailures : failures < 256 ^ 8) :
    readFrame (front ++ encodeHeader expected 2 0 failures) expected front.length expected =
      .ok (.terminal failures) := by
  have hheader : readHeader (((front ++ encodeHeader expected 2 0 failures).drop
      front.length).take testReportHeaderLength) = ⟨magic, expected, 2, 0, [0, 0], failures⟩ := by
    have htake := take_encodeHeader front [] expected 2 0 failures
    rw [append_nil] at htake
    rw [htake, readHeader_encodeHeader, mod_eq_of_lt hexp, mod_eq_of_lt hfailures]
  have hend : front.length + testReportHeaderLength =
      (front ++ encodeHeader expected 2 0 failures).length := by
    rw [length_append, length_encodeHeader]
  have hlong : ¬ (front ++ encodeHeader expected 2 0 failures).length - front.length <
      testReportHeaderLength := by
    omega
  have hvalid : ¬ ((0 : UInt8) ≠ 0 ∨ expected ≠ expected ∨ expected ≠ expected) := by
    rintro (h | h | h) <;> exact h rfl
  rw [readFrame, if_neg hlong]
  simp only [hheader]
  rw [if_neg (fun h => h rfl), if_neg (fun h => h rfl), if_pos trivial, if_neg hvalid,
    if_neg (fun h => h hend)]

/-! ## Frames that are read -/

/-- What a frame that is read says of the bytes from its position on. -/
def Reads (bytes : List UInt8) (expected cursor i : Nat) : Frame → Prop
  | .terminal failures =>
    i = expected ∧ bytes.drop cursor = encodeHeader expected 2 0 failures
  | .result behind failure => ∃ result : Result, i < expected ∧ failure = result.failure i ∧
      bytes.drop cursor = frameOf i result ++ bytes.drop behind

theorem result_of_readMessage {cursor i len behind : Nat} {status hasMessage : UInt8}
    {message : Option String} (hstatus : status ≤ 1)
    (h : readMessage bytes cursor i status hasMessage len = .ok (behind, message)) :
    ∃ result : Result, (if status = 1 then some (⟨i, message⟩ : TestFailure) else none) =
        result.failure i ∧
      encodeHeader i status hasMessage len ++ bytes.drop cursor =
        frameOf i result ++ bytes.drop behind := by
  rw [readMessage] at h
  by_cases hempty : hasMessage = 0 ∧ len = 0
  · rw [if_pos hempty] at h
    cases h
    obtain ⟨rfl, rfl⟩ := hempty
    by_cases hone : status = 1
    · subst hone
      exact ⟨.failed none, rfl, rfl⟩
    · have hzero : status = 0 := by
        apply UInt8.toNat_inj.mp
        have hle := UInt8.le_iff_toNat_le.mp hstatus
        have hne : status.toNat ≠ 1 := fun h => hone (UInt8.toNat_inj.mp h)
        have hunit : (1 : UInt8).toNat = 1 := rfl
        have hnull : (0 : UInt8).toNat = 0 := rfl
        omega
      subst hzero
      exact ⟨.passed, rfl, rfl⟩
  · rw [if_neg hempty] at h
    by_cases hboth : status = 1 ∧ hasMessage = 1
    · rw [if_pos hboth] at h
      by_cases hfits : cursor + len ≤ bytes.length
      · rw [if_pos hfits] at h
        cases htext : decode ((bytes.drop cursor).take len) with
        | none =>
          rw [htext] at h
          cases h
        | some text =>
          rw [htext] at h
          cases h
          obtain ⟨rfl, rfl⟩ := hboth
          have hbytes := encode_of_decode htext
          have hlen : (encode text).length = len := by
            rw [hbytes, length_take, length_drop]
            omega
          refine ⟨.failed (some text), rfl, ?_⟩
          rw [frameOf, hlen, hbytes, append_assoc, ← drop_drop, take_append_drop]
      · rw [if_neg hfits] at h
        cases h
    · rw [if_neg hboth] at h
      cases h

theorem reads_of_readFrame {cursor i : Nat} {frame : Frame}
    (h : readFrame bytes expected cursor i = .ok frame) :
    Reads bytes expected cursor i frame := by
  rw [readFrame] at h
  by_cases hshort : bytes.length - cursor < testReportHeaderLength
  · rw [if_pos hshort] at h
    cases h
  rw [if_neg hshort] at h
  have hlen : ((bytes.drop cursor).take testReportHeaderLength).length =
      testReportHeaderLength := by
    rw [length_take, length_drop]
    omega
  have hencode := encodeHeader_readHeader hlen
  have hsplit := take_append_drop testReportHeaderLength (bytes.drop cursor)
  rw [drop_drop] at hsplit
  simp only at h
  generalize readHeader ((bytes.drop cursor).take testReportHeaderLength) = header at h hencode
  by_cases hmagic : header.magic ≠ magic
  · rw [if_pos hmagic] at h
    cases h
  rw [if_neg hmagic] at h
  by_cases hreserved : header.reserved ≠ [0, 0]
  · rw [if_pos hreserved] at h
    cases h
  rw [if_neg hreserved] at h
  have hheader := hencode (not_not.mp hmagic) (not_not.mp hreserved)
  rw [← hheader] at hsplit
  by_cases hterminal : header.status = 2
  · rw [if_pos hterminal] at h
    by_cases hinvalid : header.hasMessage ≠ 0 ∨ header.index ≠ expected ∨ i ≠ expected
    · rw [if_pos hinvalid] at h
      cases h
    rw [if_neg hinvalid] at h
    simp only [not_or, not_not] at hinvalid
    obtain ⟨hnone, hidx, hlast⟩ := hinvalid
    by_cases hbehind : cursor + testReportHeaderLength ≠ bytes.length
    · rw [if_pos hbehind] at h
      cases h
    rw [if_neg hbehind] at h
    cases h
    refine ⟨hlast, ?_⟩
    rw [← hsplit, not_not.mp hbehind, drop_length, append_nil, hterminal, hnone, hidx]
  · rw [if_neg hterminal] at h
    by_cases hinvalid : header.status > 1 ∨ header.hasMessage > 1 ∨ header.index ≠ i ∨
        header.index ≥ expected
    · rw [if_pos hinvalid] at h
      cases h
    rw [if_neg hinvalid] at h
    simp only [not_or, not_not, UInt8.not_lt] at hinvalid
    obtain ⟨hstatus, -, hidx, hexp⟩ := hinvalid
    cases hread : readMessage bytes (cursor + testReportHeaderLength) header.index header.status
        header.hasMessage header.length with
    | error text =>
      rw [hread] at h
      cases h
    | ok pair =>
      rw [hread] at h
      cases h
      obtain ⟨result, hfail, hframe⟩ := result_of_readMessage hstatus hread
      rw [hidx] at hfail hframe hsplit hexp
      refine ⟨result, lt_of_not_ge hexp, ?_, hsplit.symm.trans hframe⟩
      rw [hidx]
      exact hfail

/-! ## The loop -/

theorem length_frameOf (result : Result) :
    testReportHeaderLength ≤ (frameOf i result).length := by
  rcases result with _ | _ | message
  · exact (length_encodeHeader _ _ _ _).ge
  · exact (length_encodeHeader _ _ _ _).ge
  · rw [frameOf, length_append, length_encodeHeader]
    exact le_add_right _ _

theorem length_framesFrom (results : List Result) :
    testReportHeaderLength * results.length ≤ (framesFrom i results).length := by
  induction results generalizing i with
  | nil => exact le_refl _
  | cons result rest ih =>
    have hframe := length_frameOf i result
    have hrest := ih (i + 1)
    rw [framesFrom, length_append, length_cons, mul_succ]
    omega

theorem length_failuresFrom (results : List Result) :
    (failuresFrom i results).length ≤ results.length := by
  induction results generalizing i with
  | nil => exact le_refl _
  | cons result rest ih =>
    have hone : (result.failure i).toList.length ≤ 1 := by
      cases result.failure i <;> simp
    have hrest := ih (i + 1)
    rw [failuresFrom, length_append, length_cons]
    omega

theorem readFrames_framesFrom (expected count : Nat) (hexp : expected < 256 ^ 8)
    (hcount : count < 256 ^ 8) (results : List Result) (turns i : Nat) (front : List UInt8)
    (failures : List TestFailure) (hidx : i + results.length = expected)
    (hsize : (framesFrom i results).length < 256 ^ 8) (hturns : results.length < turns) :
    readFrames (front ++ (framesFrom i results ++ encodeHeader expected 2 0 count)) expected
        turns front.length i failures =
      .ok (some count, failures ++ failuresFrom i results) := by
  induction results generalizing turns i front failures with
  | nil =>
    obtain ⟨turns, rfl⟩ := exists_eq_succ_of_ne_zero (ne_of_gt hturns)
    have hlast : i = expected := hidx
    have hmore : front.length <
        (front ++ ([] ++ encodeHeader expected 2 0 count)).length := by
      rw [length_append, nil_append, length_encodeHeader]
      exact Nat.lt_add_of_pos_right (by decide)
    rw [framesFrom, readFrames, if_pos hmore, hlast, nil_append,
      readFrame_terminal front hexp hcount, failuresFrom, append_nil]
    rfl
  | cons result rest ih =>
    obtain ⟨turns, rfl⟩ := exists_eq_succ_of_ne_zero (ne_of_gt (zero_lt_of_lt hturns))
    rw [length_cons] at hidx hturns
    rw [framesFrom, length_append] at hsize
    have hframe := length_frameOf i result
    have hmore : front.length < (front ++ (framesFrom i (result :: rest) ++
        encodeHeader expected 2 0 count)).length := by
      rw [length_append, length_append, length_encodeHeader]
      exact Nat.lt_add_of_pos_right (Nat.add_pos_right _ (by decide))
    have hread := readFrame_frameOf front
      (framesFrom (i + 1) rest ++ encodeHeader expected 2 0 count) result
      (by omega : i < expected) hexp (by omega)
    have hrest := ih turns (i + 1) (front ++ frameOf i result)
      (failures ++ (result.failure i).toList) (by omega) (by omega) (by omega)
    rw [length_append, append_assoc] at hrest
    rw [readFrames, if_pos hmore, framesFrom, append_assoc, hread]
    simp only [bind, Except.bind]
    rw [hrest, failuresFrom, append_assoc]

/-- A loop that ends with a terminal frame has read the frames of a run. -/
theorem results_of_readFrames {count : Nat} {found : List TestFailure} (turns cursor i : Nat)
    (failures : List TestFailure)
    (h : readFrames bytes expected turns cursor i failures = .ok (some count, found)) :
    ∃ results : List Result, i + results.length = expected ∧
      found = failures ++ failuresFrom i results ∧
      bytes.drop cursor = framesFrom i results ++ encodeHeader expected 2 0 count := by
  induction turns generalizing cursor i failures with
  | zero => cases h
  | succ turns ih =>
    rw [readFrames] at h
    by_cases hmore : cursor < bytes.length
    · rw [if_pos hmore] at h
      obtain ⟨frame, hread, h⟩ := ExceptLists.bind_eq_ok.mp h
      have hreads := reads_of_readFrame hread
      cases frame with
      | terminal total =>
        cases h
        obtain ⟨hidx, hbytes⟩ := hreads
        exact ⟨[], hidx, (append_nil _).symm, hbytes⟩
      | result behind failure =>
        obtain ⟨result, -, hfail, hbytes⟩ := hreads
        obtain ⟨rest, hidx, hfound, hbehind⟩ := ih behind (i + 1) _ h
        refine ⟨result :: rest, ?_, ?_, ?_⟩
        · rw [length_cons]
          omega
        · rw [hfound, failuresFrom, hfail, append_assoc]
        · rw [hbytes, hbehind, framesFrom, append_assoc]
    · rw [if_neg hmore] at h
      cases h

/-! ## The report -/

theorem parseTestReport_encodeRun (results : List Result)
    (hlimit : (encodeRun results).length ≤ testReportLimit) :
    parseTestReport (encodeRun results) results.length (exitCodeOf results) =
      .ok ⟨exitCodeOf results, failuresFrom 0 results⟩ := by
  have hframes := length_framesFrom 0 results
  have hfailures := length_failuresFrom 0 results
  rw [encodeRun, length_append, testReportLimit] at hlimit
  rw [testReportHeaderLength] at hframes
  have hread := readFrames_framesFrom results.length
    (failuresFrom 0 results).length (by omega) (by omega) results
    ((encodeRun results).length + 1) 0 [] [] (zero_add _) (by omega)
    (by rw [encodeRun, length_append]; omega)
  rw [nil_append, nil_append, length_nil] at hread
  rw [parseTestReport]
  rw [show encodeRun results = framesFrom 0 results ++
    encodeHeader results.length 2 0 (failuresFrom 0 results).length from rfl] at hread ⊢
  rw [hread]
  simp only [bind, Except.bind]
  rw [if_neg (fun h => h rfl), if_neg (fun h => h rfl)]
  rfl

theorem results_of_parseTestReport {exitCode : Int} {run : TestRun}
    (h : parseTestReport bytes expected exitCode = .ok run) :
    ∃ results : List Result, results.length = expected ∧ encodeRun results = bytes ∧
      exitCodeOf results = exitCode ∧ run = ⟨exitCode, failuresFrom 0 results⟩ := by
  rw [parseTestReport] at h
  obtain ⟨⟨count, found⟩, hread, h⟩ := ExceptLists.bind_eq_ok.mp h
  cases count with
  | none => cases h
  | some count =>
    obtain ⟨results, hexp, hfound, hbytes⟩ := results_of_readFrames _ _ _ _ hread
    rw [zero_add] at hexp
    rw [nil_append] at hfound
    rw [drop_zero] at hbytes
    dsimp only at h
    by_cases hcount : count ≠ found.length
    · rw [if_pos hcount] at h
      cases h
    rw [if_neg hcount] at h
    by_cases hexit : exitCode ≠ if found.isEmpty then 0 else 1
    · rw [if_pos hexit] at h
      cases h
    rw [if_neg hexit] at h
    cases h
    have hcode : exitCodeOf results = exitCode := by
      rw [not_not.mp hexit, hfound, exitCodeOf]
    refine ⟨results, hexp, ?_, hcode, ?_⟩
    · rw [hbytes, encodeRun, hexp, not_not.mp hcount, hfound]
    · rw [← not_not.mp hexit, hfound]

theorem runTests_sends (outcomes : List Outcome) :
    runTests outcomes =
      some (encodeRun (outcomes.map .ofOutcome), exitCodeOf (outcomes.map .ofOutcome)) := by
  rw [runTests_eq, runWith_sendResult]

/-- The bytes of a run within the limit are read as the indices and the messages of the tests
that failed, in order. Bytes are read only where they are those of a run of as many tests with
this exit code, in which a test may also fail without a message. -/
theorem parseTestReport_runs :
    (∀ outcomes : List Outcome, ∃ bytes exitCode, runTests outcomes = some (bytes, exitCode) ∧
      (bytes.length ≤ testReportLimit → parseTestReport bytes outcomes.length exitCode =
          .ok ⟨exitCode, failuresFrom 0 (outcomes.map .ofOutcome)⟩)) ∧
    (∀ bytes expected exitCode run, parseTestReport bytes expected exitCode = .ok run →
      ∃ results : List Result, results.length = expected ∧
        runWith sendResult results = some (bytes, exitCode) ∧
        run = ⟨exitCode, failuresFrom 0 results⟩) := by
  constructor
  · intro outcomes
    refine ⟨_, _, runTests_sends outcomes, fun hlimit => ?_⟩
    have hparse := parseTestReport_encodeRun (outcomes.map .ofOutcome) hlimit
    rwa [length_map] at hparse
  · intro bytes expected exitCode run h
    obtain ⟨results, hexp, hbytes, hcode, hrun⟩ := results_of_parseTestReport h
    refine ⟨results, hexp, ?_, hrun⟩
    rw [runWith_sendResult, hbytes, hcode]

theorem parseTestReport_runs_single : ∃ results : List Result, results.length = 1 ∧
    runWith sendResult results = some (encodeHeader 0 1 0 0 ++ encodeHeader 1 2 0 1, 1) ∧
    (⟨1, [⟨0, none⟩]⟩ : TestRun) = ⟨1, failuresFrom 0 results⟩ :=
  parseTestReport_runs.2 _ _ _ _ rfl

/-- The runtime sends a message with every failure, but a failure without one is read, too. -/
theorem parseTestReport_without_message :
    parseTestReport (encodeHeader 0 1 0 0 ++ encodeHeader 1 2 0 1) 1 1 = .ok ⟨1, [⟨0, none⟩]⟩ ∧
    ¬ ∃ outcomes : List Outcome, outcomes.length = 1 ∧
      runTests outcomes = some (encodeHeader 0 1 0 0 ++ encodeHeader 1 2 0 1, 1) := by
  refine ⟨rfl, ?_⟩
  rintro ⟨outcomes, hlen, hrun⟩
  obtain ⟨outcome, rfl⟩ := length_eq_one_iff.mp hlen
  rw [runTests_sends] at hrun
  cases outcome with
  | passed => exact absurd hrun (by decide)
  | failed message =>
    -- The byte that tells of a message differs.
    have hbyte := congrArg (fun sent => (sent.map fun pair => pair.1.getD 13 0)) hrun
    exact absurd hbyte (by decide : ¬ some (1 : UInt8) = some 0)

/-! ## A report that is cut short -/

theorem framesFrom_cancel {first second : List Result} {rest others : List UInt8} (i : Nat)
    (hlen : first.length = second.length)
    (hsize : i + (framesFrom i first ++ rest).length < 256 ^ 8)
    (h : framesFrom i first ++ rest = framesFrom i second ++ others) : rest = others := by
  induction first generalizing i second with
  | nil =>
    obtain rfl := length_eq_zero_iff.mp hlen.symm
    exact h
  | cons result more ih =>
    obtain ⟨other, tail, rfl⟩ := exists_cons_of_length_eq_add_one hlen.symm
    have hframe := length_frameOf i result
    have hsame := congrArg length h
    simp only [framesFrom, append_assoc, length_append, testReportHeaderLength] at *
    have hread := readFrame_frameOf [] (framesFrom (i + 1) more ++ rest) result (lt_succ_self i)
      (by omega) (by omega)
    rw [h, readFrame_frameOf [] _ other (lt_succ_self i) (by omega) (by omega)] at hread
    injection hread with hread
    injection hread with hbehind
    exact ih (i + 1) (succ.inj hlen) (by omega)
      (append_inj h (Nat.add_left_cancel hbehind).symm).2

/-- No report that is read is the start of another one of as many tests: a test process that stops
early does not pass for a whole one. -/
theorem parseTestReport_whole {more : List UInt8} {exitCode otherCode : Int} {run : TestRun}
    (hread : parseTestReport bytes expected exitCode = .ok run) (hmore : more ≠ [])
    (hlimit : (bytes ++ more).length ≤ testReportLimit) :
    ¬ ∃ other, parseTestReport (bytes ++ more) expected otherCode = .ok other := by
  rintro ⟨other, hother⟩
  obtain ⟨first, hfirst, rfl, -⟩ := results_of_parseTestReport hread
  obtain ⟨second, hsecond, hbytes, -⟩ := results_of_parseTestReport hother
  rw [← hbytes, encodeRun, testReportLimit] at hlimit
  rw [encodeRun, encodeRun, append_assoc] at hbytes
  have hrest := congrArg length
    (framesFrom_cancel 0 (hsecond.trans hfirst.symm) (by omega) hbytes)
  rw [length_append, length_encodeHeader, length_encodeHeader] at hrest
  exact hmore (length_eq_zero_iff.mp (by omega))

theorem parseTestReport_whole_empty :
    ¬ ∃ other, parseTestReport (encodeHeader 0 2 0 0 ++ [0]) 0 0 = .ok other :=
  parseTestReport_whole (rfl : parseTestReport _ 0 0 = .ok ⟨0, []⟩) (by decide) (by decide)

end Salicin.Testing
