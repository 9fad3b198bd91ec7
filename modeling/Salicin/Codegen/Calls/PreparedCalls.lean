import Salicin.Codegen.Calls.ArgumentOrder

/-!
# Prepared calls

When a call is prepared without a complaint, each of its arguments was lowered once, in the
order of the source, and the locals of the lowered arguments keep apart.
-/

namespace Salicin.Codegen.Calls

open List Step

open Salicin.Source (Expr CallArg)

variable {Rest Code Lowered Lowered' : Type}

/-! ## Prepared calls -/

namespace PreparedCall

@[simp] theorem given_map (f : Lowered → Lowered') (call : PreparedCall Lowered) :
    (call.map f).given = call.given.map f := by
  cases call <;> rfl

@[simp] theorem captures_map (f : Lowered → Lowered') (call : PreparedCall Lowered) :
    ((call.map f).captures : List (LoweredArgument Code)) = call.captures := by
  cases call <;> rfl

end PreparedCall

/-- A prepared call whose arguments were lowered from the sources, after its captures. -/
def PreparedFrom (start : LocalId) (srcs : List CallArg)
    (prepared : Option (PreparedCall (ArgumentTurn Code))) (limit : LocalId) : Prop :=
  ∀ call, prepared = some call → ∃ middle, start ≤ middle ∧
    (∀ turn ∈ (call.captures : List (LoweredArgument Code)), turn.Passes middle) ∧
      ObservedInOrder middle srcs call.given limit

variable {start limit : LocalId} {srcs : List CallArg}

theorem preparedFrom_none :
    PreparedFrom start srcs (none : Option (PreparedCall (ArgumentTurn Code))) limit :=
  fun _ hcall => nomatch hcall

theorem preparedFrom_some {middle : LocalId} {call : PreparedCall (ArgumentTurn Code)}
    (hle : start ≤ middle)
    (hpasses : ∀ turn ∈ (call.captures : List (LoweredArgument Code)), turn.Passes middle)
    (hgiven : ObservedInOrder middle srcs call.given limit) :
    PreparedFrom start srcs (some call) limit := by
  intro other hother
  cases hother
  exact ⟨middle, hle, hpasses, hgiven⟩

theorem none_meets (limit : LocalId) :
    Meets (pure none : Lower Rest (Option (PreparedCall (ArgumentTurn Code)))) limit
      (PreparedFrom start srcs) :=
  pure_meets fun _ _ => preparedFrom_none

/-- A complaint instead of a call. -/
theorem complaint_meets (msg : String) (limit : LocalId) : Meets (do
    report msg
    pure none : Lower Rest (Option (PreparedCall (ArgumentTurn Code)))) limit
      (PreparedFrom start srcs) :=
  .after (report_advances msg) fun _ => none_meets limit

section Forms

variable (lowering : CallLowering Rest Code)

theorem zip_flatMap_fst {Second : Type} {groups : List (List CallArg)} {params : List Second}
    (hlen : groups.length ≤ params.length) :
    (groups.zip params).flatMap Prod.fst = groups.flatten := by
  rw [flatMap_def, map_fst_zip hlen]

theorem prepareNamedCall_meets (name : String) (groups : List (List CallArg)) (start : LocalId) :
    Meets (prepareNamedCall lowering (observing lowering) name groups) start
      (PreparedFrom start groups.flatten) := by
  refine .after (advances _) fun found => ?_
  cases found with
  | none => exact none_meets _
  | some signature =>
    simp only
    split
    · exact complaint_meets _ _
    next hlen =>
      have hlen : groups.length ≤ signature.groups.length := by
        simpa [FunctionSig.functionTy] using hlen
      have hgroups := lowerArgumentGroups_meets
        (fun groupIndex i => observing_meets lowering (.named name groupIndex i)) name
        (groups.zip signature.groups) 0 start
      rw [zip_flatMap_fst hlen] at hgroups
      refine .bind hgroups fun given limit _ hgiven => ?_
      cases given with
      | none => exact none_meets _
      | some given =>
        exact pure_meets fun _ hlater =>
          preparedFrom_some le_rfl (forall_mem_nil _) ((hgiven given rfl).to_le hlater)

/-! ### Locals -/

variable (localName : String)

theorem checkIndirectCall_meets (functionTy : FunctionTy)
    (groups : List (List CallArg)) (start : LocalId) :
    Meets (checkIndirectCall lowering localName functionTy groups) start
      fun checked _ => checked = true → groups.length = functionTy.groups.length := by
  unfold checkIndirectCall
  split
  · exact .after (report_advances _) fun _ => pure_meets fun _ _ hfalse => nomatch hfalse
  next hlen =>
    have hlen : groups.length = functionTy.groups.length := not_not.mp hlen
    exact .ite (.after (report_advances _) fun _ => pure_meets fun _ _ hfalse => nomatch hfalse)
      (.after (advances _) fun _ => pure_meets fun _ _ _ => hlen)

theorem prepareIndirectCall_meets (local_ : LocalInfo)
    (functionTy : FunctionTy) (groups : List (List CallArg)) (start : LocalId) :
    Meets (prepareIndirectCall lowering (observing lowering) localName local_ functionTy groups)
      start (PreparedFrom start groups.flatten) := by
  refine .bind (checkIndirectCall_meets lowering localName functionTy groups start)
    fun checked limit hle hchecked => ?_
  cases checked with
  | false => exact none_meets _
  | true =>
    have hgroups := lowerIndirectGroups_meets (observing_meets lowering) localName
      (groups.zip functionTy.groups) limit
    rw [zip_flatMap_fst (hchecked rfl).le] at hgroups
    refine .bind hgroups fun given later _ hgiven => ?_
    cases given with
    | none => exact none_meets _
    | some given =>
      exact pure_meets fun _ hlater =>
        preparedFrom_some hle (forall_mem_nil _) ((hgiven given rfl).to_le hlater)

theorem reportMismatches_advances
    (groups : List (List CallArg × List ParamSig)) (i : Nat) :
    Advances (reportMismatches localName i groups : Lower Rest PUnit) := by
  induction groups generalizing i with
  | nil => exact pure_advances _
  | cons group rest ih =>
    exact .bind (onlyIf_advances (report_advances _)) fun _ => ih (i + 1)

theorem consumeCallable_advances (kind localName : String) (isFnOnce : Bool) (callable : HirPlace) :
    Advances (consumeCallable lowering kind localName isFnOnce callable) := by
  refine .bind (advances _) fun status => ?_
  cases status with
  | initialized => exact .ite (advances _) (pure_advances _)
  | uninitialized => exact report_advances _
  | maybeUninitialized => exact report_advances _

theorem closureTurns_passes {local_ : LocalInfo} {closure : ClosureInfo}
    (hclosure : local_.closure = some closure) (hbelow : ∀ id, local_.Mentions id → id < limit) :
    ∀ turn ∈ (closureTurns local_ closure : List (LoweredArgument Code)), turn.Passes limit := by
  intro turn hturn
  obtain ⟨⟨capture, i⟩, hmem, rfl⟩ := mem_map.mp hturn
  refine ⟨rfl, fun id hid => hbelow id (.inr ⟨closure, hclosure, capture, ?_, ?_⟩)⟩
  · exact fst_mem_of_mem_zipIdx hmem
  · revert hid
    simp only [LoweredArgument.plain, ClosureCapture.argument]
    cases capture.mode with
    | shared =>
      cases capture.forwarded with
      | none => exact fun hid => hid
      | some forwarded => exact fun hid => hid.elim
    | mutable =>
      cases capture.forwarded with
      | none => exact fun hid => hid
      | some forwarded => exact fun hid => hid.elim
    | move =>
      cases capture.forwarded with
      | none => exact fun hid => hid.elim
      | some forwarded => exact fun hid => hid.elim

theorem prepareClosureCall_meets {local_ : LocalInfo} {closure : ClosureInfo}
    (groups : List (List CallArg)) (hclosure : local_.closure = some closure)
    (hbelow : ∀ id, local_.Mentions id → id < start) :
    Meets (prepareClosureCall lowering (observing lowering) localName local_ closure groups) start
      (PreparedFrom start groups.flatten) := by
  unfold prepareClosureCall
  split
  · exact complaint_meets _ _
  next hlen =>
    have hchecks : Advances (checkClosureCall lowering localName local_ closure groups
        (groups.length = closure.groups.length)) :=
      .bind (reportMismatches_advances localName _ 0) fun _ =>
        .bind (onlyIf_advances (advances _)) fun _ => consumeCallable_advances lowering _ _ _ _
    refine .after hchecks fun _ => ?_
    have hgroups := lowerArgumentGroups_meets (fun _ _ => observing_meets lowering .plain) localName
      (groups.zip closure.groups) 0 start
    rw [zip_flatMap_fst (not_lt.mp hlen)] at hgroups
    refine .bind hgroups fun given limit _ hgiven => ?_
    cases given with
    | none => exact none_meets _
    | some given =>
      exact pure_meets fun _ hlater =>
        preparedFrom_some le_rfl (closureTurns_passes hclosure hbelow)
          ((hgiven given rfl).to_le hlater)

theorem partialSignature_advances (local_ : LocalInfo) (info : PartialInfo) :
    Advances (partialSignature lowering localName local_ info) := by
  have herror (msg : String) : Advances (do
      report msg
      pure none : Lower Rest (Option (FunctionTy × List CallableCaptureTy × List (List ParamSig)))) :=
    .bind (report_advances msg) fun _ => pure_advances _
  unfold partialSignature
  split
  · split
    · exact herror _
    · refine .bind (advances _) fun shape => ?_
      cases shape with
      | none => exact herror _
      | some params => exact pure_advances _
  · exact .ite (.bind (advances _) fun _ => pure_advances _) (herror _)
  · exact herror _

theorem partialTurns_passes (local_ : LocalInfo) (captures : List CallableCaptureTy)
    (limit : LocalId) :
    ∀ turn ∈ (partialTurns local_ captures : List (LoweredArgument Code)), turn.Passes limit := by
  intro turn hturn
  obtain ⟨⟨capture, i⟩, -, rfl⟩ := mem_map.mp hturn
  refine ⟨rfl, fun id hid => False.elim ?_⟩
  revert hid
  simp only [LoweredArgument.plain, CallableCaptureTy.argument]
  cases capture.mode with
  | copy => exact fun hid => hid
  | move => exact fun hid => hid
  | borrow => exact fun hid => hid
  | mutBorrow => exact fun hid => hid

theorem preparePartialCall_meets (local_ : LocalInfo) (info : PartialInfo)
    (groups : List (List CallArg)) (start : LocalId) :
    Meets (preparePartialCall lowering (observing lowering) localName local_ info groups) start
      (PreparedFrom start groups.flatten) := by
  refine .after (partialSignature_advances lowering localName local_ info) fun found => ?_
  cases found with
  | none => exact none_meets _
  | some found =>
    obtain ⟨functionTy, captures, params⟩ := found
    simp only
    split
    · exact complaint_meets _ _
    next hlen =>
      refine .ite (complaint_meets _ _) ?_
      refine .after (consumeCallable_advances lowering _ _ _ _) fun _ => ?_
      have hgroups := lowerArgumentGroups_meets (fun _ _ => observing_meets lowering .plain)
        localName (groups.zip params) 0 start
      rw [zip_flatMap_fst (not_lt.mp hlen)] at hgroups
      refine .bind hgroups fun given limit _ hgiven => ?_
      cases given with
      | none => exact none_meets _
      | some given =>
        exact pure_meets fun _ hlater =>
          preparedFrom_some le_rfl (partialTurns_passes local_ captures start)
            ((hgiven given rfl).to_le hlater)

theorem prepareTopLevelCall_meets (complaint name : String) (groups : List (List CallArg))
    (start : LocalId) :
    Meets (prepareTopLevelCall lowering (observing lowering) complaint name groups) start
      (PreparedFrom start groups.flatten) :=
  .after (advances _) fun _ => .ite (prepareNamedCall_meets lowering name groups start)
    (complaint_meets _ _)

theorem PreparedFrom.from_le {start' : LocalId}
    {prepared : Option (PreparedCall (ArgumentTurn Code))}
    (hprep : PreparedFrom start srcs prepared limit) (hle : start' ≤ start) :
    PreparedFrom start' srcs prepared limit := by
  intro call hcall
  obtain ⟨middle, hmid, hcall⟩ := hprep call hcall
  exact ⟨middle, hle.trans hmid, hcall⟩

theorem prepareLocalCall_meets (name : String) (groups : List (List CallArg)) (start : LocalId) :
    Meets (prepareLocalCall lowering (observing lowering) name groups) start
      (PreparedFrom start groups.flatten) := by
  refine .bind (meets _ start) fun found limit hle hfound => ?_
  refine Meets.mono ?_ fun _ _ _ hprep => PreparedFrom.from_le hprep hle
  cases found with
  | none => exact prepareTopLevelCall_meets lowering _ name groups limit
  | some local_ =>
    simp only
    split
    next closure hclosure =>
      exact prepareClosureCall_meets lowering name groups hclosure
        fun id hid => hfound id ⟨local_, rfl, hid⟩
    · exact preparePartialCall_meets lowering name local_ _ groups limit
    · exact prepareIndirectCall_meets lowering name local_ _ groups limit
    · exact prepareTopLevelCall_meets lowering _ name groups limit

/-! ### Methods -/

/-- The temporary of a receiver was handed out for it. -/
def ReceiverPlaced (start : LocalId) (found : HirPlace × Option (HirBinding Code))
    (limit : LocalId) : Prop :=
  ∀ binding, found.2 = some binding → found.1.localId = binding.id ∧ start ≤ binding.id ∧
    binding.id < limit ∧ binding.value.Below limit

theorem ReceiverPlaced.mono {limit' : LocalId} {found : HirPlace × Option (HirBinding Code)}
    (hplaced : ReceiverPlaced start found limit) (hle : limit ≤ limit') :
    ReceiverPlaced start found limit' := by
  intro binding hbind
  obtain ⟨hplace, hstart, hlt, hbelow⟩ := hplaced binding hbind
  exact ⟨hplace, hstart, hlt.trans_le hle, fun id hid => (hbelow id hid).trans_le hle⟩

theorem lowerReceiverPlace_meets (receiver : Expr) (member : String) (start : LocalId) :
    Meets (lowerReceiverPlace lowering receiver member) start (ReceiverPlaced start) := by
  refine .bind (meets _ start) fun found limit hle _ => ?_
  cases found with
  | some place => exact pure_meets fun _ _ binding hbind => nomatch hbind
  | none =>
    refine .bind (meets _ limit) fun val middle hmid hbelow => ?_
    refine .bind (freshLocal_meets middle) fun id later _ hid => ?_
    refine pure_meets fun last hlast binding hbind => ?_
    cases hbind
    exact ⟨rfl, (hle.trans hmid).trans hid.1, hid.2.trans_le hlast, fun other hother =>
      (hbelow other hother).trans ((hid.1.trans_lt hid.2).trans_le hlast)⟩

/-- The argument of a receiver with a temporary takes the temporary. -/
def ReceiverTaken (place : HirPlace) (binding : HirBinding Code)
    (turn : LoweredArgument Code) : Prop :=
  (∃ mutable, turn.bindings = [binding.mutableIf mutable]) ∧ turn.argument.Takes place.localId

variable (subject : String)

theorem requireCopyableReceiver_advances (param : ParamSig) :
    Advances (requireCopyableReceiver lowering subject param) :=
  .bind (advances _) fun _ =>
    .ite (.bind (advances _) fun _ => report_advances _) (pure_advances _)

theorem lendTemporaryReceiver_meets (place : HirPlace) (binding : HirBinding Code)
    (mutable : Bool) (start : LocalId) :
    Meets (lendTemporaryReceiver lowering place binding mutable) start fun turn _ =>
      turn.bindings = [binding] ∧ turn.argument.Takes place.localId :=
  .after (advances _) fun _ => pure_meets fun _ _ => ⟨rfl, borrowArgument_takes mutable _⟩

theorem HirBinding.mutableIf_false (binding : HirBinding Code) :
    binding.mutableIf false = binding := by
  cases binding
  simp [HirBinding.mutableIf]

theorem passTemporaryReceiver_meets (place : HirPlace)
    (binding : HirBinding Code) (param : ParamSig) (mode : ArgumentMode) (start : LocalId) :
    Meets (passTemporaryReceiver lowering subject place binding param mode) start
      fun turn _ => ReceiverTaken place binding turn := by
  have hsame : binding = binding.mutableIf false := binding.mutableIf_false.symm
  cases mode with
  | copy =>
    refine .after (requireCopyableReceiver_advances lowering subject param) fun _ => ?_
    refine .bind (copyPlace_meets lowering.toArgumentLowering place start)
      fun val limit _ hreads => pure_meets fun _ _ => ⟨⟨false, by rw [← hsame]⟩, ?_⟩
    exact hreads.takes .copy
  | move =>
    refine .bind (movePlace_meets lowering.toArgumentLowering place start)
      fun val limit _ hreads => pure_meets fun _ _ => ⟨⟨false, by rw [← hsame]⟩, ?_⟩
    exact hreads.takes .move
  | borrow =>
    refine (lendTemporaryReceiver_meets lowering place binding false start).mono
      fun turn _ _ hturn => ⟨⟨false, by rw [← hsame, hturn.1]⟩, hturn.2⟩
  | mutBorrow =>
    refine (lendTemporaryReceiver_meets lowering (place.mutableIf true) (binding.mutableIf true)
      true start).mono fun turn _ _ hturn => ⟨⟨true, hturn.1⟩, hturn.2⟩

theorem lowerTemporaryReceiver_meets (place : HirPlace)
    (binding : HirBinding Code) (param : ParamSig) (start : LocalId) :
    Meets (lowerTemporaryReceiver lowering subject place binding param) start
      fun lowered _ => ∀ turn, lowered = some turn → ReceiverTaken place binding turn := by
  refine .after (effectivePassMode_advances lowering.toArgumentLowering _ _) fun mode => ?_
  split
  · refine .bind (lowerReferencePlaceCallArgument_meets lowering.toArgumentLowering _ param
      param.ty start) fun lowered limit _ hlowered => ?_
    cases lowered with
    | none =>
      exact .after (advances _) fun _ => pure_meets fun _ _ turn hturn => nomatch hturn
    | some lowered =>
      refine pure_meets fun _ _ turn hturn => ?_
      cases hturn
      exact ⟨⟨_, rfl⟩, (hlowered lowered rfl).2⟩
  · refine .after (advances _) fun _ => ?_
    refine .bind (passTemporaryReceiver_meets lowering subject place binding param mode start)
      fun turn _ _ hturn => pure_meets fun _ _ other hother => ?_
    exact Option.some.inj hother ▸ hturn

theorem lowerReceiver_meets (receiver : Expr) (place : HirPlace)
    (binding : Option (HirBinding Code)) (param : ParamSig) (hle : start ≤ limit)
    (hplaced : ReceiverPlaced start (place, binding) limit) :
    Meets (lowerReceiver lowering (observing lowering) subject receiver place binding param)
      limit fun kept later => ∀ turn, kept = some turn →
        turn.Observed start ⟨none, receiver⟩ later := by
  cases binding with
  | none =>
    refine .bind (observing_meets lowering .plain ⟨none, receiver⟩ param limit)
      fun turn middle _ hturn => pure_meets fun later hlater other hother => ?_
    cases hother
    exact { hturn with within := hturn.within.mono hle hlater }
  | some binding =>
    obtain ⟨hplace, hstart, hlt, hbelow⟩ := hplaced binding rfl
    refine .bind (lowerTemporaryReceiver_meets lowering subject place binding param limit)
      fun lowered middle hmid hlowered => ?_
    cases lowered with
    | none => exact pure_meets fun _ _ turn hturn => nomatch hturn
    | some lowered =>
      obtain ⟨⟨mutable, hbinds⟩, htakes⟩ := hlowered lowered rfl
      refine pure_meets fun later hlater turn hturn => ?_
      cases hturn
      exact
        { source_eq := rfl
          within := .bound hbinds (hplace ▸ htakes) hstart
            (hlt.trans_le (hmid.trans hlater))
            fun id hid => (hbelow id hid).trans_le (hmid.trans hlater)
          rvalue_iff := iff_of_false Bool.noConfusion (hbinds ▸ cons_ne_nil _ _) }

theorem methodGroups_flatten (groups : List (List CallArg))
    (parameterGroups : List (List ParamSig)) :
    (methodGroups groups parameterGroups).flatten = groups.flatten := by
  unfold methodGroups
  split
  next hempty =>
    obtain ⟨-, hlen, hall⟩ := hempty
    obtain ⟨group, rfl⟩ := length_eq_one_iff.mp hlen
    simpa using hall
  · rfl

theorem prepareResolvedMethod_meets (receiver : Expr) (member : String) (place : HirPlace)
    (binding : Option (HirBinding Code)) (method : ResolvedMethod) (hle : start ≤ limit)
    (hplaced : ReceiverPlaced start (place, binding) limit) :
    Meets (prepareResolvedMethod lowering (observing lowering) receiver member place binding
      method) limit (PreparedFrom start (⟨none, receiver⟩ :: method.groups.flatten)) := by
  refine .after (advances _) fun found => ?_
  cases found with
  | none => exact none_meets _
  | some signature =>
    simp only
    split
    next receiverParameter others runtimeParameters hsignature =>
      split
      · exact complaint_meets _ _
      next hlen =>
        refine .bind (lowerReceiver_meets lowering _ receiver place binding receiverParameter hle
          hplaced) fun kept middle hmid hkept => ?_
        cases kept with
        | none => exact none_meets _
        | some kept =>
          have hcount : (methodGroups method.groups signature.groups).length ≤
              runtimeParameters.length := by
            rw [hsignature] at hlen ⊢
            simpa using hlen
          have hgroups := lowerArgumentGroups_meets
            (fun _ _ => observing_meets lowering .plain) s!"{method.target}.{member}"
            ((methodGroups method.groups signature.groups).zip runtimeParameters) 0 middle
          rw [zip_flatMap_fst hcount, methodGroups_flatten] at hgroups
          refine .bind hgroups fun given later _ hgiven => ?_
          cases given with
          | none => exact none_meets _
          | some given =>
            exact pure_meets fun _ hlater =>
              preparedFrom_some le_rfl (forall_mem_nil _)
                (.cons (hle.trans hmid) (hkept kept rfl)
                  ((hgiven given rfl).to_le hlater))
    · exact complaint_meets _ _

/-! ### All forms -/

/-- The arguments that the source gives to a call; the receiver of a method comes first, and the
groups of a method are those that its resolution leaves for run time. -/
def callSources (expected : Option Ty) : CallForm → Lower Rest (List CallArg)
  | .named _ groups | .local_ _ groups => pure groups.flatten
  | .method receiver member groups => do
    let (place, _) ← lowerReceiverPlace lowering receiver member
    match ← (lowering.resolveMethod receiver place member groups expected).run with
    | none => pure []
    | some method => pure (⟨none, receiver⟩ :: method.groups.flatten)

/-- Preparing a call lowers each argument that the source gives to it once, in order. -/
theorem prepareCall_observed (form : CallForm) (expected : Option Ty) (state : State Rest) :
    state.Grows (prepareCall lowering (observing lowering) expected form state).2 ∧
      PreparedFrom state.nextLocal (callSources lowering expected form state).1
        (prepareCall lowering (observing lowering) expected form state).1
        (prepareCall lowering (observing lowering) expected form state).2.nextLocal := by
  cases form with
  | named name groups =>
    exact prepareNamedCall_meets lowering name groups state.nextLocal state le_rfl
  | local_ name groups =>
    exact prepareLocalCall_meets lowering name groups state.nextLocal state le_rfl
  | method receiver member groups =>
    obtain ⟨hreceiver, hplaced⟩ :=
      lowerReceiverPlace_meets lowering receiver member state.nextLocal state le_rfl
    simp only [prepareCall, prepareMethodCall, callSources, bind_lower]
    generalize lowerReceiverPlace lowering receiver member state = placed at hreceiver hplaced
    obtain ⟨⟨place, binding⟩, between⟩ := placed
    simp only
    have hresolve := (lowering.resolveMethod receiver place member groups expected).grows between
    cases hmethod :
      ((lowering.resolveMethod receiver place member groups expected).run between).1 with
    | none => exact ⟨hreceiver.trans hresolve, preparedFrom_none⟩
    | some method =>
      obtain ⟨hgrows, hprep⟩ := prepareResolvedMethod_meets lowering receiver member place
        binding method (hreceiver.trans hresolve).nextLocal
        (hplaced.mono hresolve.nextLocal) _ le_rfl
      exact ⟨(hreceiver.trans hresolve).trans hgrows, hprep⟩

end Forms

end Salicin.Codegen.Calls
