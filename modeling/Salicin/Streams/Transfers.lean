import Salicin.Foundation.HostLoop

/-!
# Streams

The loops of `io.sc` that write and read streams until everything is done. A host call hands over
at most as many bytes as it was asked for.
-/

namespace Salicin.Streams

open List

abbrev Bytes := List UInt8

inductive IoErrorKind
  | notFound | permissionDenied | alreadyExists | invalidInput | invalidData | interrupted
  | wouldBlock | writeZero | unexpectedEof | brokenPipe | unsupported | outOfMemory | other
  deriving DecidableEq

structure IoError where
  failure : IoErrorKind
  hostCode : Option Int

def decodeErrorKind (value : Int) : IoErrorKind :=
  if value = 0 then .notFound
  else if value = 1 then .permissionDenied
  else if value = 2 then .alreadyExists
  else if value = 3 then .invalidInput
  else if value = 4 then .invalidData
  else if value = 5 then .interrupted
  else if value = 6 then .wouldBlock
  else if value = 7 then .writeZero
  else if value = 8 then .unexpectedEof
  else if value = 9 then .brokenPipe
  else if value = 10 then .unsupported
  else if value = 11 then .outOfMemory
  else .other

def hostError (failure rawCode : Int) : IoError := ⟨decodeErrorKind failure, some rawCode⟩

def generatedError (failure : IoErrorKind) : IoError := ⟨failure, none⟩

/-- What a host call does: it hands over what it can, or fails with a negative count. -/
inductive Answer (Data : Type)
  | gives (data : Data)
  | fails (failure rawCode : Int)

/-- `count_result`: a signed count that is not negative fits in `u64`. -/
def countResult (count failure rawCode : Int) : Except IoError Nat :=
  if count < 0 then .error (hostError failure rawCode) else .ok count.toNat

/-! ## Transfers -/

/-- What is done of a buffer, the buffer, and the bytes that went between it and the host. -/
structure Transfer where
  done : Nat
  buffer : Bytes
  moved : Bytes

/-- `host_write`: the count, the failure and its code, and the bytes that the host takes. -/
def hostWrite (data : Bytes) (length : Nat) : Answer Nat → (Int × Int × Int) × Bytes
  | .gives limit => (((min limit length : Nat), 12, 0), data.take (min limit length))
  | .fails failure rawCode => ((-1, failure, rawCode), [])

def writeStreamAt (bytes : Bytes) (offset : Nat) (answer : Answer Nat) :
    Except IoError Nat × Bytes × Bytes :=
  if bytes.length ≤ offset then (.ok 0, bytes, [])
  else
    let ((count, failure, rawCode), data) :=
      hostWrite (bytes.drop offset) (bytes.length - offset) answer
    (countResult count failure rawCode, bytes, data)

/-- `host_read`: the count, the failure and its code, and the bytes that the host stores. -/
def hostRead (length : Nat) : Answer Bytes → (Int × Int × Int) × Bytes
  | .gives data => (((data.take length).length, 12, 0), data.take length)
  | .fails failure rawCode => ((-1, failure, rawCode), [])

/-- Put bytes into a buffer. -/
def store (buffer : Bytes) (offset : Nat) (data : Bytes) : Bytes :=
  buffer.take offset ++ data ++ buffer.drop (offset + data.length)

def readStreamAt (buffer : Bytes) (offset : Nat) (answer : Answer Bytes) :
    Except IoError Nat × Bytes × Bytes :=
  if buffer.length ≤ offset then (.ok 0, buffer, [])
  else
    let ((count, failure, rawCode), data) := hostRead (buffer.length - offset) answer
    (countResult count failure rawCode, store buffer offset data, data)

section

variable {Data : Type} (streamAt : Bytes → Nat → Answer Data → Except IoError Nat × Bytes × Bytes)
  (ended : IoErrorKind)

/-- One round of `write_all_stream` or `read_exact`, which differ in the call and in the error at
a count of zero. -/
def transferTurn (state : Transfer) (answer : Answer Data) :
    Transfer × Option (Except IoError Unit) :=
  let (outcome, buffer, data) := streamAt state.buffer state.done answer
  let moved := state.moved ++ data
  match outcome with
  | .ok 0 => (⟨state.done, buffer, moved⟩, some (.error (generatedError ended)))
  | .ok count => (⟨state.done + count, buffer, moved⟩, none)
  | .error error => (⟨state.done, buffer, moved⟩,
      if error.failure = .interrupted then none else some (.error error))

def transferAll (buffer : Bytes) :
    List (Answer Data) → Option (Except IoError Unit) × Transfer × List (Answer Data) :=
  HostLoop.run (fun state => if state.done < buffer.length then none else some (.ok ()))
    (transferTurn streamAt ended) ⟨0, buffer, []⟩

end

def writeAllStream : Bytes → List (Answer Nat) →
    Option (Except IoError Unit) × Transfer × List (Answer Nat) :=
  transferAll writeStreamAt .writeZero

def readExact : Bytes → List (Answer Bytes) →
    Option (Except IoError Unit) × Transfer × List (Answer Bytes) :=
  transferAll readStreamAt .unexpectedEof

/-- The output of `read_file` so far, whether the input has ended, and what the host gave. -/
structure FileReading where
  output : Bytes
  done : Bool
  received : Bytes

@[irreducible] def chunk : Bytes := replicate 4096 0

def readFileTurn (limit : Nat) (state : FileReading) (answer : Answer Bytes) :
    FileReading × Option (Except IoError Bytes) :=
  let (outcome, read, data) := readStreamAt chunk 0 answer
  let received := state.received ++ data
  match outcome with
  | .ok 0 => (⟨state.output, true, received⟩, none)
  | .ok count =>
    if limit < state.output.length ∨ limit - state.output.length < count then
      (⟨state.output, state.done, received⟩, some (.error (generatedError .invalidData)))
    else (⟨state.output ++ read.take count, state.done, received⟩, none)
  | .error error => (⟨state.output, state.done, received⟩,
      if error.failure = .interrupted then none else some (.error error))

/-- `open` with `open_options.read_only()`: the descriptor that the host gives for a path without
a zero byte. -/
def openReadOnly (path : Bytes) (opened : Answer Nat) : Except IoError Nat :=
  if 0 ∈ path then .error (generatedError .invalidInput)
  else
    match opened with
    | .gives descriptor => .ok descriptor
    | .fails failure rawCode => .error (hostError failure rawCode)

def readFileLoop (limit : Nat) :
    List (Answer Bytes) → Option (Except IoError Bytes) × FileReading × List (Answer Bytes) :=
  HostLoop.run (fun state => if state.done then some (.ok state.output) else none)
    (readFileTurn limit) ⟨[], false, []⟩

def readFile (path : Bytes) (opened : Answer Nat) (limit : Nat)
    (answers : List (Answer Bytes)) :
    Option (Except IoError Bytes) × FileReading × List (Answer Bytes) :=
  match openReadOnly path opened with
  | .error error => (some (.error error), ⟨[], false, []⟩, answers)
  | .ok _ => readFileLoop limit answers

/-! ## What the loops do -/

variable {Data Result : Type}

/-- The error at which a loop gives up after an answer. -/
def Answer.stop (isEmpty : Data → Bool) (kind : IoErrorKind) : Answer Data → Option IoError
  | .gives data => if isEmpty data then some (generatedError kind) else none
  | .fails failure rawCode =>
    if decodeErrorKind failure = .interrupted then none else some (hostError failure rawCode)

/-- No answer so far ends the loop. -/
def Passes (stop : Answer Data → Option IoError) (taken : List (Answer Data)) : Prop :=
  ∀ answer ∈ taken, stop answer = none

/-- The loop has returned the first error there was, or there was none. -/
def Returned (stop : Answer Data → Option IoError) (taken : List (Answer Data)) :
    Except IoError Result → Prop
  | .ok _ => Passes stop taken
  | .error error => ∃ front last, taken = front ++ [last] ∧ Passes stop front ∧
      stop last = some error

theorem Passes.push {stop : Answer Data → Option IoError} {taken : List (Answer Data)}
    (hpasses : Passes stop taken) {answer : Answer Data} (hanswer : stop answer = none) :
    Passes stop (taken ++ [answer]) := by
  intro other hother
  rcases mem_append.mp hother with hother | hother
  · exact hpasses other hother
  · exact mem_singleton.mp hother ▸ hanswer

theorem countResult_natCast (count : Nat) (failure rawCode : Int) :
    countResult count failure rawCode = .ok count := by
  simp [countResult]

theorem countResult_failed (failure rawCode : Int) :
    countResult (-1) failure rawCode = .error (hostError failure rawCode) := by
  simp [countResult]

def writeStop : Answer Nat → Option IoError := Answer.stop (· == 0) .writeZero

def readStop : Answer Bytes → Option IoError := Answer.stop List.isEmpty .unexpectedEof

/-- An attempt moves some bytes between the buffer and the host, and none when it fails. -/
structure Attempts (streamAt : Bytes → Nat → Answer Data → Except IoError Nat × Bytes × Bytes)
    (isEmpty : Data → Bool) : Prop where
  fails : ∀ {buffer offset}, offset < buffer.length → ∀ failure rawCode,
    streamAt buffer offset (.fails failure rawCode) =
      (.error (hostError failure rawCode), buffer, [])
  gives : ∀ {buffer offset}, offset < buffer.length → ∀ given, ∃ data,
    streamAt buffer offset (.gives given) = (.ok data.length, store buffer offset data, data) ∧
      data.length ≤ buffer.length - offset ∧ (data = [] ↔ isEmpty given)

theorem store_self {buffer data : Bytes} {offset : Nat}
    (hdata : data <+: buffer.drop offset) : store buffer offset data = buffer := by
  obtain ⟨rest, hrest⟩ := hdata
  have hdrop : buffer.drop (offset + data.length) = rest := by
    rw [← drop_drop, ← hrest, drop_left]
  rw [store, hdrop, append_assoc, hrest, take_append_drop]

theorem attempts_writeStreamAt : Attempts writeStreamAt (· == 0) where
  fails hopen failure rawCode := by
    rw [writeStreamAt, if_neg (Nat.not_le.mpr hopen)]
    simp only [hostWrite, countResult_failed]
  gives {buffer offset} hopen limit := by
    refine ⟨(buffer.drop offset).take (min limit (buffer.length - offset)), ?_, ?_, ?_⟩
    · rw [writeStreamAt, if_neg (Nat.not_le.mpr hopen), store_self ( take_prefix _ _)]
      simp only [hostWrite, countResult_natCast]
      simp
    · exact Nat.le_trans (length_take_le _ _) (Nat.min_le_right _ _)
    · rw [take_eq_nil_iff, drop_eq_nil_iff]
      simp
      omega

theorem attempts_readStreamAt : Attempts readStreamAt List.isEmpty where
  fails {buffer offset} hopen failure rawCode := by
    rw [readStreamAt, if_neg (Nat.not_le.mpr hopen)]
    simp [hostRead, countResult_failed, store]
  gives {buffer offset} hopen data := by
    refine ⟨data.take (buffer.length - offset), ?_, length_take_le _ _, ?_⟩
    · rw [readStreamAt, if_neg (Nat.not_le.mpr hopen)]
      simp only [hostRead, countResult_natCast]
    · rw [take_eq_nil_iff, List.isEmpty_iff]
      exact or_iff_right (by omega)

/-- The bytes that moved stand at the front of the buffer. -/
structure Transfer.Of (buffer : Bytes) (state : Transfer) : Prop where
  done : state.done = state.moved.length
  le : state.done ≤ buffer.length
  buffer : state.buffer = state.moved ++ buffer.drop state.done

variable {streamAt : Bytes → Nat → Answer Data → Except IoError Nat × Bytes × Bytes}
  {isEmpty : Data → Bool} {buffer : Bytes}

/-- A turn moves the next bytes, and ends the loop at the error of its answer. -/
theorem transferTurn_of (hattempts : Attempts streamAt isEmpty) (ended : IoErrorKind)
    {state : Transfer} (hopen : state.done < buffer.length) (hof : state.Of buffer)
    (answer : Answer Data) : (transferTurn streamAt ended state answer).1.Of buffer ∧
      (transferTurn streamAt ended state answer).2 =
        (answer.stop isEmpty ended).map Except.error := by
  obtain ⟨hdone, hle, hbuffer⟩ := hof
  have hspace : state.done < state.buffer.length := by
    rw [hbuffer, length_append, length_drop]
    omega
  cases answer with
  | fails failure rawCode =>
    simp only [transferTurn, hattempts.fails hspace, Answer.stop, append_nil]
    refine ⟨⟨hdone, hle, hbuffer⟩, ?_⟩
    by_cases h : decodeErrorKind failure = .interrupted <;> simp [hostError, h]
  | gives given =>
    obtain ⟨data, hgives, hfits, hempty⟩ := hattempts.gives hspace given
    have hstore : store state.buffer state.done data =
        state.moved ++ data ++ buffer.drop (state.done + data.length) := by
      rw [store, hbuffer, hdone, take_left, drop_append, drop_drop]
      simp
    rw [hbuffer, length_append, length_drop] at hfits
    simp only [transferTurn, hgives, hstore, Answer.stop]
    cases data with
    | nil =>
      rw [if_pos (hempty.mp rfl)]
      exact ⟨⟨by simpa using hdone, hle, by simp⟩, rfl⟩
    | cons byte rest =>
      rw [if_neg fun h => cons_ne_nil _ _ (hempty.mpr h)]
      have hle : state.done + (byte :: rest).length ≤ buffer.length := by omega
      exact ⟨⟨by simp [hdone], hle, rfl⟩, rfl⟩

/-- The loop ends at the first answer that stops it, or when the buffer is done. -/
theorem transferAll_ends (hattempts : Attempts streamAt isEmpty) (ended : IoErrorKind)
    {Kept : Bytes → Prop} (hkept : ∀ buffer offset answer, Kept buffer →
      Kept (streamAt buffer offset answer).2.1)
    (hbuffer : Kept buffer) (answers : List (Answer Data)) :
    HostLoop.Ends
      (fun state taken => Passes (Answer.stop isEmpty ended) taken ∧ state.Of buffer ∧
        Kept state.buffer)
      (fun res state taken => Returned (Answer.stop isEmpty ended) taken res ∧
        (state.Of buffer ∧ Kept state.buffer) ∧
        (res = .ok () → state.moved.length = buffer.length))
      answers (transferAll streamAt ended buffer answers) := by
  have hkeeps (state answer) (h : Kept state.buffer) :
      Kept (transferTurn streamAt ended state answer).1.buffer := by
    have hnext := hkept state.buffer state.done answer h
    unfold transferTurn
    dsimp only
    split <;> exact hnext
  refine (@HostLoop.run_ends _ _ _ _ (transferTurn streamAt ended)
    (fun state taken => Passes (Answer.stop isEmpty ended) taken ∧ state.Of buffer ∧
      Kept state.buffer) _ ?_ ?_ ?_ _ [] answers
    ⟨fun _ h => absurd h not_mem_nil, ⟨rfl, Nat.zero_le _, rfl⟩, hbuffer⟩).mono
    (fun _ _ h => h.1) fun _ _ _ h => h
  · rintro state taken res ⟨hpasses, hof, hkept⟩ hres
    split_ifs at hres with hopen
    cases hres
    refine ⟨hpasses, ⟨hof, hkept⟩, fun _ => ?_⟩
    have hle := hof.le
    rw [← hof.done]
    omega
  · rintro state taken answer ⟨hpasses, hof, hkept⟩ hopen hnone
    obtain ⟨hnext, hstop⟩ := transferTurn_of hattempts ended (by simpa using hopen) hof answer
    exact ⟨hpasses.push (by simpa [hstop] using hnone), hnext, hkeeps state answer hkept⟩
  · rintro state taken answer res ⟨hpasses, hof, hkept⟩ hopen hres
    obtain ⟨hnext, hstop⟩ := transferTurn_of hattempts ended (by simpa using hopen) hof answer
    rw [hstop] at hres
    obtain ⟨error, herror, rfl⟩ := Option.map_eq_some_iff.mp hres
    exact ⟨⟨taken, answer, rfl, hpasses, herror⟩, ⟨hnext, hkeeps state answer hkept⟩, by simp⟩

/-- What was sent are the first bytes, and all of them when that is the result. -/
def WritesAll (bytes : Bytes) (answers : List (Answer Nat)) : Prop :=
  HostLoop.Ends (fun state taken => Passes writeStop taken ∧ state.moved <+: bytes)
    (fun result state taken => Returned writeStop taken result ∧ state.moved <+: bytes ∧
      (result = .ok () → state.moved = bytes))
    answers (writeAllStream bytes answers)

theorem writesAll (bytes : Bytes) (answers : List (Answer Nat)) : WritesAll bytes answers := by
  have hsent (state : Transfer) (hof : state.Of bytes) (hkept : state.buffer = bytes) :
      state.moved <+: bytes := ⟨_, hof.buffer.symm.trans hkept⟩
  refine (@transferAll_ends _ _ _ bytes attempts_writeStreamAt .writeZero (· = bytes) ?_ rfl
    answers).mono ?_ ?_
  · intro buffer offset answer hkept
    unfold writeStreamAt
    split <;> exact hkept
  · rintro state taken ⟨hpasses, hof, hkept⟩
    exact ⟨hpasses, hsent state hof hkept⟩
  · rintro res state taken ⟨hreturned, ⟨hof, hkept⟩, hall⟩
    exact ⟨hreturned, hsent state hof hkept, fun hok =>
      (hsent state hof hkept).eq_of_length (hall hok)⟩

/-- The buffer begins with what was received, which fills it when that is the result. -/
def ReadsExactly (buffer : Bytes) (answers : List (Answer Bytes)) : Prop :=
  HostLoop.Ends
    (fun state taken => Passes readStop taken ∧
      state.buffer = state.moved ++ buffer.drop state.moved.length)
    (fun result state taken => Returned readStop taken result ∧
      state.buffer = state.moved ++ buffer.drop state.moved.length ∧
      (result = .ok () → state.moved.length = buffer.length))
    answers (readExact buffer answers)

theorem readsExactly (buffer : Bytes) (answers : List (Answer Bytes)) :
    ReadsExactly buffer answers := by
  refine (@transferAll_ends _ _ _ buffer attempts_readStreamAt .unexpectedEof (fun _ => True)
    (fun _ _ _ h => h) trivial answers).mono ?_ ?_
  · rintro state taken ⟨hpasses, hof, -⟩
    exact ⟨hpasses, hof.done ▸ hof.buffer⟩
  · rintro res state taken ⟨hreturned, ⟨hof, -⟩, hall⟩
    exact ⟨hreturned, hof.done ▸ hof.buffer, hall⟩

/-! ## Reading a file -/

/-- What `read_file` returns: all that the host gave before the end of the input, if that is
within the limit. -/
def ReturnsFile (limit : Nat) (result : Except IoError Bytes) (state : FileReading)
    (taken : List (Answer Bytes)) : Prop :=
  match result with
  | .ok output => output = state.received ∧ output.length ≤ limit ∧
    ∃ front, taken = front ++ [.gives []] ∧ Passes readStop front
  | .error error =>
    limit < state.received.length ∧ error = generatedError .invalidData ∧ Passes readStop taken ∨
    state.received.length ≤ limit ∧ ∃ front failure rawCode,
      taken = front ++ [.fails failure rawCode] ∧ Passes readStop front ∧
        decodeErrorKind failure ≠ .interrupted ∧ error = hostError failure rawCode

/-- Everything so far is within the limit, and the loop is done when the input has ended. -/
structure ReadsFile (limit : Nat) (state : FileReading) (taken : List (Answer Bytes)) :
    Prop where
  output_eq : state.output = state.received
  within : state.received.length ≤ limit
  going : state.done = false → Passes readStop taken
  ended : state.done = true → ∃ front, taken = front ++ [.gives []] ∧ Passes readStop front

theorem take_store (buffer data : Bytes) : (store buffer 0 data).take data.length = data := by
  simp [store]

theorem chunk_open : 0 < chunk.length := by
  rw [chunk, length_replicate]
  exact Nat.succ_pos 4095

theorem readFileTurn_reads {limit : Nat} {state : FileReading} {taken : List (Answer Bytes)}
    (hreads : ReadsFile limit state taken) (hgoing : state.done = false)
    (answer : Answer Bytes) :
    ((readFileTurn limit state answer).2 = none →
      ReadsFile limit (readFileTurn limit state answer).1 (taken ++ [answer])) ∧
    ∀ res, (readFileTurn limit state answer).2 = some res →
      ReturnsFile limit res (readFileTurn limit state answer).1 (taken ++ [answer]) := by
  obtain ⟨hout, hwithin, hpasses, -⟩ := hreads
  have hpasses := hpasses hgoing
  cases answer with
  | fails failure rawCode =>
    simp only [readFileTurn, attempts_readStreamAt.fails chunk_open, hostError, append_nil]
    by_cases h : decodeErrorKind failure = .interrupted
    · simp only [h, if_true]
      exact ⟨fun _ => ⟨hout, hwithin, fun _ => hpasses.push (by simp [readStop, Answer.stop, h]),
        by simp [hgoing]⟩, by simp⟩
    · simp only [h, if_false]
      refine ⟨by simp, fun res hres => ?_⟩
      cases hres
      exact .inr ⟨hwithin, taken, failure, rawCode, rfl, hpasses, h, rfl⟩
  | gives data =>
    obtain ⟨read, hgives, -, hempty⟩ := attempts_readStreamAt.gives chunk_open data
    simp only [readFileTurn, hgives]
    cases read with
    | nil =>
      obtain rfl := isEmpty_iff.mp (hempty.mp rfl)
      exact ⟨fun _ => ⟨by simpa using hout, by simpa using hwithin, by simp,
        fun _ => ⟨taken, rfl, hpasses⟩⟩, by simp⟩
    | cons byte rest =>
      have hmore : Passes readStop (taken ++ [.gives data]) :=
        hpasses.push (if_neg fun h => cons_ne_nil _ _ (hempty.mpr h))
      have hchunk := take_store chunk (byte :: rest)
      simp only [length_cons] at hchunk ⊢
      split_ifs with hlimit
      · refine ⟨by simp, fun res hres => ?_⟩
        cases hres
        exact .inl ⟨by simp [← hout]; omega, rfl, hmore⟩
      · exact ⟨fun _ => ⟨by rw [hchunk, hout], by simp [← hout]; omega, fun _ => hmore,
          by simp [hgoing]⟩, by simp⟩

theorem readFileLoop_ends (limit : Nat) (answers : List (Answer Bytes)) :
    HostLoop.Ends
      (fun state taken => Passes readStop taken ∧ state.received.length ≤ limit)
      (ReturnsFile limit) answers (readFileLoop limit answers) := by
  refine (@HostLoop.run_ends _ _ _ _ (readFileTurn limit) (ReadsFile limit) _ ?_ ?_ ?_ _ [] _
    ⟨rfl, Nat.zero_le _, fun _ _ h => absurd h not_mem_nil, by simp⟩).mono ?_ fun _ _ _ h => h
  · intro state taken res hreads hres
    split_ifs at hres with hdone
    cases hres
    exact ⟨hreads.output_eq, hreads.output_eq ▸ hreads.within, hreads.ended hdone⟩
  · intro state taken answer hreads hopen
    exact (readFileTurn_reads hreads (by simpa using hopen) answer).1
  · intro state taken answer res hreads hopen
    exact (readFileTurn_reads hreads (by simpa using hopen) answer).2 res
  · rintro state taken ⟨hreads, hopen⟩
    exact ⟨hreads.going (by simpa using hopen), hreads.within⟩

/-- The host hands the content over in pieces that fit in a chunk, and interrupts now and then. -/
inductive Delivers : Bytes → List (Answer Bytes) → Prop
  | nothing : Delivers [] []
  | interrupted {content : Bytes} {answers : List (Answer Bytes)} (failure rawCode : Int)
      (hkind : decodeErrorKind failure = .interrupted) (hrest : Delivers content answers) :
      Delivers content (.fails failure rawCode :: answers)
  | gives {data content : Bytes} {answers : List (Answer Bytes)} (hne : data ≠ [])
      (hfits : data.length ≤ chunk.length) (hrest : Delivers content answers) :
      Delivers (data ++ content) (.gives data :: answers)

theorem readStreamAt_gives {buffer data : Bytes} {offset : Nat} (hopen : offset < buffer.length)
    (hfits : data.length ≤ buffer.length - offset) :
    readStreamAt buffer offset (.gives data) =
      (.ok data.length, store buffer offset data, data) := by
  rw [readStreamAt, if_neg (Nat.not_le.mpr hopen)]
  simp only [hostRead, take_of_length_le hfits, countResult_natCast]

theorem readFileLoop_delivers {content : Bytes} {answers : List (Answer Bytes)}
    (hdelivers : Delivers content answers) (limit : Nat) (later : List (Answer Bytes))
    {output received : Bytes} (hwithin : output.length ≤ limit) :
    (HostLoop.run (fun state => if state.done then some (.ok state.output) else none)
      (readFileTurn limit) ⟨output, false, received⟩ (answers ++ .gives [] :: later)).1 =
      some (if (output ++ content).length ≤ limit then .ok (output ++ content)
        else .error (generatedError .invalidData)) := by
  induction hdelivers generalizing output received with
  | nothing =>
    have hend : readStreamAt chunk 0 (.gives []) = (.ok 0, store chunk 0 [], []) :=
      readStreamAt_gives chunk_open (Nat.zero_le _)
    cases later <;> simp [HostLoop.run, readFileTurn, hend, hwithin]
  | interrupted failure rawCode hkind hrest ih =>
    simpa [HostLoop.run, readFileTurn, attempts_readStreamAt.fails chunk_open, hostError, hkind]
      using ih hwithin
  | @gives data content answers hne hfits hrest ih =>
    have hgives := readStreamAt_gives chunk_open hfits
    obtain ⟨count, hcount⟩ : ∃ count, data.length = count + 1 :=
      Nat.exists_eq_succ_of_ne_zero (mt length_eq_zero_iff.mp hne)
    by_cases hover : limit - output.length < data.length
    · have hlong : ¬ (output ++ (data ++ content)).length ≤ limit := by
        simp only [length_append]
        omega
      rw [if_neg hlong]
      rw [hcount] at hover hgives
      simp [HostLoop.run, readFileTurn, hgives, hover]
    · have hnext := @ih (output ++ data) (received ++ data) (by simp only [length_append]; omega)
      have hstored := take_store chunk data
      rw [hcount] at hover hgives hstored
      simpa [HostLoop.run, readFileTurn, hgives, hover, Nat.not_lt.mpr hwithin, hstored]
        using hnext

/-- However the host cuts a file into pieces, and wherever it interrupts, `read_file` returns the
whole of it, unless it is beyond the limit. -/
theorem readFile_delivers {content path : Bytes} {answers : List (Answer Bytes)}
    (hdelivers : Delivers content answers) (hpath : 0 ∉ path) (descriptor limit : Nat)
    (later : List (Answer Bytes)) :
    (readFile path (.gives descriptor) limit (answers ++ .gives [] :: later)).1 =
      some (if content.length ≤ limit then .ok content
        else .error (generatedError .invalidData)) := by
  rw [readFile, openReadOnly, if_neg hpath]
  exact readFileLoop_delivers hdelivers limit later (Nat.zero_le _)

theorem readFile_delivers_interrupted :
    (readFile [46] (.gives 3) 3
      ([.gives [1, 2], .fails 5 4, .gives [3]] ++ .gives [] :: [.fails 0 2])).1 =
      some (.ok [1, 2, 3]) := by
  have hchunk : 2 ≤ chunk.length := by
    rw [chunk, length_replicate]
    decide
  have hdelivers : Delivers ([1, 2] ++ ([3] ++ [])) [.gives [1, 2], .fails 5 4, .gives [3]] :=
    .gives (by simp) hchunk (.interrupted 5 4 rfl (.gives (by simp) (Nat.le_of_lt hchunk) .nothing))
  exact readFile_delivers hdelivers (by decide) 3 3 [.fails 0 2]

end Salicin.Streams
