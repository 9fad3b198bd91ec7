import Salicin.Codegen.Calls.StagedEvaluation
import Salicin.Codegen.Calls.Forms

/-!
# What the lowering of arguments leaves

A lowered argument has no local that was not handed out before it or for it. Its temporary, if
it has one, was handed out for it, and the argument is a use of it.
-/

namespace Salicin.Codegen.Calls

open Step LoweredArgument

open Salicin.Source (Expr CallArg Param Pattern)

variable {Rest Code : Type}

/-! ## Locals that have been handed out -/

/-- The locals of an expression have been handed out. -/
def HirExpr.Below (val : HirExpr Code) (limit : LocalId) : Prop :=
  ∀ id, val.Mentions id → id < limit

/-- A lowered argument without a temporary, or with one that was handed out for it. -/
inductive LoweredArgument.Within (start : LocalId) (turn : LoweredArgument Code)
    (limit : LocalId) : Prop
  | plain (hbinds : turn.bindings = [])
      (harg : ∀ id, turn.argument.Mentions id → id < limit)
  | bound {binding : HirBinding Code} (hbinds : turn.bindings = [binding])
      (htakes : turn.argument.Takes binding.id) (hstart : start ≤ binding.id)
      (hlt : binding.id < limit) (hval : binding.value.Below limit)

/-- An argument without a temporary whose locals have been handed out. -/
def LoweredArgument.Passes (turn : LoweredArgument Code) (limit : LocalId) : Prop :=
  turn.bindings = [] ∧ ∀ id, turn.argument.Mentions id → id < limit

theorem LoweredArgument.Within.mono {start start' limit limit' : LocalId}
    {turn : LoweredArgument Code} (hturn : turn.Within start limit) (hstart' : start' ≤ start)
    (hlimit : limit ≤ limit') : turn.Within start' limit' := by
  cases hturn with
  | plain hbinds harg =>
    exact .plain hbinds fun id hid => (harg id hid).trans_le hlimit
  | bound hbinds htakes hstart hlt hval =>
    exact .bound hbinds htakes (hstart'.trans hstart) (hlt.trans_le hlimit)
      fun id hid => (hval id hid).trans_le hlimit

/-- Arguments that were lowered one after the other. -/
inductive LoweredInOrder : LocalId → List (LoweredArgument Code) → LocalId → Prop
  | nil {start limit : LocalId} (hle : start ≤ limit) : LoweredInOrder start [] limit
  | cons {start middle limit : LocalId} {turn : LoweredArgument Code}
      {rest : List (LoweredArgument Code)} (hle : start ≤ middle)
      (hturn : turn.Within start middle) (hrest : LoweredInOrder middle rest limit) :
      LoweredInOrder start (turn :: rest) limit

namespace LoweredInOrder

variable {start middle limit : LocalId} {turns others : List (LoweredArgument Code)}

theorem le (hturns : LoweredInOrder start turns limit) : start ≤ limit := by
  induction hturns with
  | nil hle => exact hle
  | cons hle hturn hrest ih => exact hle.trans ih

theorem append (hturns : LoweredInOrder start turns middle)
    (hothers : LoweredInOrder middle others limit) :
    LoweredInOrder start (turns ++ others) limit := by
  induction hturns with
  | nil hle =>
    cases hothers with
    | nil hle' => exact .nil (hle.trans hle')
    | cons hle' hturn hrest => exact .cons (hle.trans hle') (hturn.mono hle le_rfl) hrest
  | cons hle hturn hrest ih => exact .cons hle hturn (ih hothers)

theorem of_passes (hpasses : ∀ turn ∈ turns, turn.Passes limit) :
    LoweredInOrder limit turns limit := by
  induction turns with
  | nil => exact .nil le_rfl
  | cons turn rest ih =>
    rw [List.forall_mem_cons] at hpasses
    exact .cons le_rfl (.plain hpasses.1.1 hpasses.1.2) (ih hpasses.2)

/-- The temporaries of the arguments were handed out from the start on. -/
theorem start_le (hturns : LoweredInOrder start turns limit) :
    ∀ binding ∈ temporaries turns, start ≤ binding.id := by
  induction hturns with
  | nil hle => simp [temporaries]
  | @cons start middle limit turn rest hle hturn hrest ih =>
    rw [temporaries_cons]
    intro binding hmem
    cases hturn with
    | plain hbinds harg =>
      rw [hbinds, List.nil_append] at hmem
      exact hle.trans (ih binding hmem)
    | bound hbinds htakes hstart hlt hval =>
      rw [hbinds, List.singleton_append, List.mem_cons] at hmem
      cases hmem with
      | inl heq => exact heq ▸ hstart
      | inr hrest => exact hle.trans (ih binding hrest)

theorem separate (hturns : LoweredInOrder start turns limit) : Separate limit turns := by
  induction hturns with
  | nil hle => exact .nil
  | cons hle hturn hrest ih =>
    cases hturn with
    | plain hbinds harg =>
      refine .plain hbinds (fun id hid => ?_) ih
      have hlt := harg id hid
      exact ⟨hlt.trans_le hrest.le, fun later hlater =>
        (hlt.trans_le (hrest.start_le later hlater)).ne'⟩
    | bound hbinds htakes hstart hlt hval =>
      refine .bound hbinds htakes (hlt.trans_le hrest.le)
        (fun id hid => (hval id hid).trans_le hrest.le) (fun later hlater => ?_) ih
      exact (hlt.trans_le (hrest.start_le later hlater)).ne'

end LoweredInOrder

/-! ## Values and places -/

section Arguments

variable (lowering : ArgumentLowering Rest Code)

theorem effectivePassMode_advances (mode : PassMode) (ty : Ty) :
    Advances (effectivePassMode lowering mode ty) := by
  cases mode with
  | inferred =>
    exact .bind (advances _) fun _ => .ite (pure_advances _) (pure_advances _)
  | copy => exact pure_advances _
  | move => exact pure_advances _
  | borrow => exact pure_advances _
  | mutBorrow => exact pure_advances _

variable (place : HirPlace)

theorem ensureWritable_advances :
    Advances (ensureWritable place : Lower Rest PUnit) := by
  unfold ensureWritable
  cases place.capability with
  | mutParam => exact pure_advances _
  | sharedParam => exact report_advances _
  | owned => exact .ite (pure_advances _) (report_advances _)

theorem checkCopied_advances : Advances (checkCopied lowering place) :=
  .bind (advances _) fun _ =>
    .ite (.bind (advances _) fun _ => report_advances _) (pure_advances _)

theorem moveOut_advances : Advances (moveOut lowering place) :=
  .bind (advances _) fun _ =>
    .ite (.bind (advances _) fun _ => report_advances _)
      (.ite (report_advances _)
        (.bind (advances _) fun _ =>
          .ite (report_advances _)
            (.bind (advances _) fun _ => .bind (advances _) fun _ =>
              .ite (report_advances _) (advances _))))

/-- An access to a place reads it. -/
def HirExpr.Reads (val : HirExpr Code) (place : HirPlace) : Prop :=
  ∃ kind, val.kind = .read place kind

theorem copyPlace_meets (start : LocalId) :
    Meets (copyPlace lowering place) start fun val _ => val.Reads place :=
  .after (advances _) fun _ => .after (advances _) fun _ =>
    .after (checkCopied_advances lowering place) fun _ => pure_meets fun _ _ => ⟨.copy, rfl⟩

theorem movePlace_meets (start : LocalId) :
    Meets (movePlace lowering place) start fun val _ => val.Reads place :=
  .after (advances _) fun _ => .after (advances _) fun _ =>
    .after (moveOut_advances lowering place) fun _ => pure_meets fun _ _ => ⟨.move, rfl⟩

theorem accessPlace_meets (start : LocalId) :
    Meets (accessPlace lowering place) start fun val _ => val.Reads place :=
  .after (advances _) fun _ =>
    .ite (copyPlace_meets lowering place start) (movePlace_meets lowering place start)

variable {val : HirExpr Code}

theorem HirExpr.Reads.below {place : HirPlace} {limit : LocalId} (hreads : val.Reads place)
    (hlt : place.localId < limit) : val.Below limit := by
  obtain ⟨kind, hkind⟩ := hreads
  obtain ⟨ty, valueKind⟩ := val
  obtain rfl : valueKind = .read place kind := hkind
  intro id hid
  exact (hid : place.localId = id) ▸ hlt

theorem HirExpr.Reads.takes {place : HirPlace} (hreads : val.Reads place) (mode : ArgumentMode) :
    (valueArgument mode val).Takes place.localId := by
  obtain ⟨kind, hkind⟩ := hreads
  rw [valueArgument]
  split
  · exact ⟨place, kind, hkind, rfl⟩
  · exact ⟨place, kind, hkind, rfl⟩

theorem borrowArgument_takes (mutable : Bool) (place : HirPlace) :
    (borrowArgument mutable place : HirArgument Code).Takes place.localId := by
  cases mutable
  · rfl
  · rfl

theorem valueArgument_mentions {mode : ArgumentMode} {id : LocalId}
    (hid : (valueArgument mode val).Mentions id) : val.Mentions id := by
  rw [valueArgument] at hid
  split at hid
  · exact hid
  · exact hid

theorem LoweredArgument.within_value {start limit : LocalId} (hbelow : val.Below limit)
    (mode : ArgumentMode) :
    (LoweredArgument.plain (valueArgument mode val)).Within start limit :=
  .plain rfl fun id hid => hbelow id (valueArgument_mentions hid)

theorem errorExpr_below (limit : LocalId) : (errorExpr : HirExpr Code).Below limit :=
  fun _ hid => hid.elim

/-! ## References -/

theorem requireCopyable_advances (param : ParamSig) : Advances (requireCopyable lowering param) :=
  .bind (advances _) fun _ =>
    .ite (.bind (advances _) fun _ => report_advances _) (pure_advances _)

theorem lowerReferencePlaceCallArgument_meets (param : ParamSig)
    (expected : Ty) (start : LocalId) :
    Meets (lowerReferencePlaceCallArgument lowering place param expected) start
      fun lowered _ => ∀ turn, lowered = some turn →
        turn.bindings = [] ∧ turn.argument.Takes place.localId := by
  unfold lowerReferencePlaceCallArgument
  refine .ite ?_ ?_
  · refine .bind (accessPlace_meets lowering place start) fun val limit _ hreads => ?_
    refine .after (effectivePassMode_advances lowering _ _) fun mode => ?_
    refine pure_meets fun _ _ turn hturn => ?_
    cases hturn
    have hreads' : HirExpr.Reads { val with ty := expected } place := hreads
    exact ⟨rfl, hreads'.takes mode⟩
  · have hnone : Meets (pure none : Lower Rest (Option (LoweredArgument Code))) start
        fun lowered _ => ∀ turn, lowered = some turn →
          turn.bindings = [] ∧ turn.argument.Takes place.localId :=
      pure_meets fun _ _ turn hturn => nomatch hturn
    cases expected with
    | reference pointee mutable region =>
      refine .ite hnone (.after (onlyIf_advances (ensureWritable_advances place)) fun _ => ?_)
      refine .after (advances _) fun loan => pure_meets fun _ _ turn hturn => ?_
      cases hturn
      exact ⟨rfl, borrowArgument_takes _ _⟩
    | _ => exact hnone

variable (arg : Expr)

theorem lowerReferenceValueCallArgument_meets (param : ParamSig) (start : LocalId) :
    Meets (lowerReferenceValueCallArgument lowering arg param) start
      fun turn limit => turn.Within start limit := by
  refine .after (effectivePassMode_advances lowering _ _) fun mode => ?_
  refine .bind (meets _ start) fun val limit _ hbelow => ?_
  refine .after (advances _) fun _ => ?_
  refine .after (onlyIf_advances (requireCopyable_advances lowering param)) fun _ => ?_
  exact pure_meets fun later hle =>
    within_value (fun id hid => (hbelow id hid).trans_le hle) mode

theorem probeReference_advances (param : ParamSig) :
    Advances (probeReference lowering arg param) := by
  refine .bind (advances _) fun probe => ?_
  cases probe with
  | known ty => exact pure_advances _
  | knownSource ty => exact pure_advances _
  | defaultable ty => exact pure_advances _
  | unsupported => exact pure_advances _

theorem lowerReferencePlace_meets (param : ParamSig) (start : LocalId) :
    Meets (lowerReferencePlace lowering arg param) start
      fun lowered limit => ∀ turn, lowered = some turn → turn.Within start limit := by
  refine .bind (meets _ start) fun found limit _ hfound => ?_
  cases found with
  | none => exact pure_meets fun _ _ turn hturn => nomatch hturn
  | some place =>
    refine (lowerReferencePlaceCallArgument_meets lowering place param _ limit).mono
      fun lowered later hle htakes turn hturn => ?_
    obtain ⟨hbinds, htakes⟩ := htakes turn hturn
    refine .plain hbinds fun id hid => ?_
    rw [htakes.eq_of_mentions hid]
    exact (hfound _ ⟨place, rfl, rfl⟩).trans_le hle

/-- A temporary is handed out for the argument that it is bound for. -/
theorem lowerReferenceTemporary_meets (param : ParamSig) (pointee : Ty)
    (mutable : Bool) (start : LocalId) :
    Meets (lowerReferenceTemporary lowering arg param pointee mutable) start
      fun turn limit => turn.Within start limit := by
  refine .bind (meets _ start) fun val limit hle hbelow => ?_
  refine .after (onlyIf_advances (advances _)) fun _ => ?_
  refine .bind (freshLocal_meets limit) fun id later _ hid => ?_
  refine .after (advances _) fun loan => pure_meets fun last hlast => ?_
  exact .bound rfl (borrowArgument_takes _ _) (hle.trans hid.1) (hid.2.trans_le hlast)
    fun other hother => (hbelow other hother).trans ((hid.1.trans_lt hid.2).trans_le hlast)

theorem lowerReferenceCallArgument_meets (param : ParamSig) (pointee : Ty)
    (mutable : Bool) (start : LocalId) :
    Meets (lowerReferenceCallArgument lowering arg param pointee mutable) start
      fun turn limit => turn.Within start limit := by
  refine .after (probeReference_advances lowering arg param) fun probe => ?_
  refine .ite (lowerReferenceValueCallArgument_meets lowering arg param start) ?_
  refine .bind (lowerReferencePlace_meets lowering arg param start)
    fun lowered limit hle hlowered => ?_
  cases lowered with
  | some turn => exact pure_meets fun _ hlater => (hlowered turn rfl).mono le_rfl hlater
  | none =>
    refine Meets.mono (.ite (lowerReferenceValueCallArgument_meets lowering arg param
      limit) (lowerReferenceTemporary_meets lowering arg param pointee mutable limit))
      fun _ _ _ hturn => hturn.mono hle le_rfl

/-! ## Arguments that lowering itself writes -/

theorem LoweredArgument.within_error (start limit : LocalId) :
    (LoweredArgument.plain (.move errorExpr) : LoweredArgument Code).Within start limit :=
  .plain rfl fun _ hid => hid.elim

theorem lowerStoredCallableCapture_meets (localName : String) (i : Nat)
    (param : ParamSig) (start : LocalId) :
    Meets (lowerStoredCallableCapture lowering localName i param) start
      fun turn limit => turn.Within start limit := by
  have herror (msg : String) : Meets (do
      report msg
      pure (LoweredArgument.plain (.move errorExpr) : LoweredArgument Code) : Lower Rest _) start
      fun turn limit => turn.Within start limit :=
    .after (report_advances msg) fun _ =>
      pure_meets fun limit _ => within_error start limit
  refine .after (advances _) fun found => ?_
  cases found with
  | none => exact herror _
  | some local_ =>
    cases hclosure : local_.closure with
    | none => simpa only [hclosure] using herror _
    | some closure =>
      simp only [hclosure]
      cases hcapture : closure.captures[i]? with
      | none => exact herror _
      | some capture =>
        simp only
        refine .after (advances _) fun _ => ?_
        cases capture.mode with
        | shared => exact pure_meets fun _ _ => .plain rfl fun _ hid => hid.elim
        | mutable => exact pure_meets fun _ _ => .plain rfl fun _ hid => hid.elim
        | move => exact pure_meets fun _ _ => .plain rfl fun _ hid => hid.elim

/-- The argument of a stored borrow copies the place that it is stored in. -/
theorem lowerInternalAsyncStoredBorrowArgument_meets (expression : Expr) (param : ParamSig)
    (start : LocalId) :
    Meets (lowerInternalAsyncStoredBorrowArgument lowering expression param) start
      fun lowered limit => ∀ turn, lowered = some turn → turn.Within start limit := by
  have hnone : Meets (pure none : Lower Rest (Option (LoweredArgument Code))) start
      fun lowered limit => ∀ turn, lowered = some turn → turn.Within start limit :=
    pure_meets fun _ _ turn hturn => nomatch hturn
  have herror (msg : String) (from_ : LocalId) : Meets (do
      report msg
      pure (some (LoweredArgument.plain (.move errorExpr))) :
        Lower Rest (Option (LoweredArgument Code))) from_
      fun lowered limit => ∀ turn, lowered = some turn → turn.Within start limit :=
    .after (report_advances msg) fun _ => pure_meets fun limit _ turn hturn =>
      Option.some.inj hturn ▸ within_error start limit
  unfold lowerInternalAsyncStoredBorrowArgument
  split
  · split
    · split
      · refine .bind (meets _ start) fun found limit hle hfound => ?_
        cases found with
        | none => exact pure_meets fun _ _ turn hturn => nomatch hturn
        | some place =>
          simp only
          split
          · refine .ite (pure_meets fun _ _ turn hturn => nomatch hturn) ?_
            refine .after (onlyIf_advances (report_advances _)) fun _ => ?_
            refine .after (onlyIf_advances (report_advances _)) fun _ => ?_
            refine .after (advances _) fun _ => pure_meets fun later hlater turn hturn => ?_
            cases hturn
            exact .plain rfl fun id hid =>
              (hfound id ⟨place, rfl, hid⟩).trans_le hlater
          · exact herror _ limit
      · exact herror _ start
    · exact hnone
  · exact hnone

/-! ## Closures for function-typed parameters -/

theorem closureAsFunction_meets (complaint : String) (lowered : HirExpr Code) (start : LocalId) :
    Meets (closureAsFunction complaint lowered : Lower Rest (HirExpr Code)) start
      fun val limit => val.Below limit := by
  unfold closureAsFunction
  split
  · refine .ite (.after (report_advances _) fun _ => ?_) ?_
    · exact pure_meets fun limit _ => errorExpr_below limit
    · exact pure_meets fun _ _ _ hid => hid.elim
  · exact pure_meets fun limit _ => errorExpr_below limit

theorem lowerNoncapturingClosureArgumentAsFunction_meets (params : List Param) (body : Expr)
    (functionTy : FunctionTy) (parameterName : String) (start : LocalId) :
    Meets (lowerNoncapturingClosureArgumentAsFunction lowering params body functionTy
      parameterName) start fun val limit => val.Below limit := by
  refine .after (advances _) fun captures => ?_
  cases captures with
  | none => exact pure_meets fun limit _ => errorExpr_below limit
  | some captures =>
    refine .ite (.after (report_advances _) fun _ => ?_) (.after (advances _) fun lowered => ?_)
    · exact pure_meets fun limit _ => errorExpr_below limit
    · exact closureAsFunction_meets _ lowered start

theorem lowerNoncapturingPatternClosureArgumentAsFunction_meets (pat : Pattern)
    (guard : Option Expr) (body : Expr) (functionTy : FunctionTy) (parameterName : String)
    (start : LocalId) :
    Meets (lowerNoncapturingPatternClosureArgumentAsFunction lowering pat guard body
      functionTy parameterName) start fun val limit => val.Below limit :=
  .after (advances _) fun lowered => closureAsFunction_meets _ lowered start

/-! ## Arguments -/

theorem lowerArgumentValue_meets (param : ParamSig) (mode : ArgumentMode)
    (start : LocalId) :
    Meets (lowerArgumentValue lowering arg param mode) start
      fun val limit => val.Below limit := by
  unfold lowerArgumentValue
  split
  · exact lowerNoncapturingClosureArgumentAsFunction_meets lowering _ _ _ _ start
  · exact lowerNoncapturingPatternClosureArgumentAsFunction_meets lowering _ _ _ _ _ start
  · refine .bind (meets _ start) fun found limit _ hfound => ?_
    cases found with
    | none => exact meets _ limit
    | some place =>
      have hlt := hfound place.localId ⟨place, rfl, rfl⟩
      refine Meets.mono (.ite (copyPlace_meets lowering place limit)
        (movePlace_meets lowering place limit)) fun val later hle hreads => ?_
      exact hreads.below (hlt.trans_le hle)

theorem lowerValueCallArgument_meets (param : ParamSig)
    (mode : ArgumentMode) (start : LocalId) :
    Meets (lowerValueCallArgument lowering arg param mode) start
      fun turn limit => turn.Within start limit := by
  unfold lowerValueCallArgument
  split
  · exact lowerReferenceCallArgument_meets lowering _ _ _ _ start
  · refine .bind (lowerArgumentValue_meets lowering arg param mode start)
      fun val limit _ hbelow => ?_
    refine .after (advances _) fun _ => ?_
    refine .after (onlyIf_advances (requireCopyable_advances lowering param)) fun _ => ?_
    exact pure_meets fun later hle =>
      within_value (fun id hid => (hbelow id hid).trans_le hle) mode

/-- The place of a borrowed argument, or the temporary that was handed out for it. -/
theorem lowerBorrowedPlace_meets (param : ParamSig) (mutable : Bool)
    (start : LocalId) :
    Meets (lowerBorrowedPlace lowering arg param mutable) start fun borrowed limit =>
      borrowed.1.localId < limit ∧ (borrowed.2 = [] ∨ ∃ binding, borrowed.2 = [binding] ∧
        borrowed.1.localId = binding.id ∧ start ≤ binding.id ∧ binding.value.Below limit) := by
  refine .bind (meets _ start) fun found limit hle hfound => ?_
  cases found with
  | some place =>
    exact pure_meets fun later hlater =>
      ⟨(hfound _ ⟨place, rfl, rfl⟩).trans_le hlater, .inl rfl⟩
  | none =>
    refine .bind (meets _ limit) fun val middle hmid hbelow => ?_
    refine .bind (freshLocal_meets middle) fun id later _ hid => ?_
    refine pure_meets fun last hlast => ⟨hid.2.trans_le hlast, .inr ⟨_, rfl, rfl, ?_, ?_⟩⟩
    · exact (hle.trans hmid).trans hid.1
    · exact fun other hother =>
        (hbelow other hother).trans ((hid.1.trans_lt hid.2).trans_le hlast)

theorem lowerBorrowCallArgument_meets (param : ParamSig) (mutable : Bool)
    (start : LocalId) :
    Meets (lowerBorrowCallArgument lowering arg param mutable) start
      fun turn limit => turn.Within start limit := by
  refine .bind (lowerBorrowedPlace_meets lowering arg param mutable start)
    fun borrowed limit _ hborrowed => ?_
  obtain ⟨place, bindings⟩ := borrowed
  obtain ⟨hlt, hbinds⟩ := hborrowed
  refine .after (advances _) fun _ => ?_
  refine .after (onlyIf_advances (ensureWritable_advances place)) fun _ => ?_
  refine .after (advances _) fun loan => pure_meets fun later hle => ?_
  have htakes : (borrowArgument mutable { place with loan := loan <|> place.loan } :
      HirArgument Code).Takes place.localId := borrowArgument_takes mutable _
  cases hbinds with
  | inl hnone =>
    refine .plain hnone fun id hid => ?_
    rw [htakes.eq_of_mentions hid]
    exact hlt.trans_le hle
  | inr hone =>
    obtain ⟨binding, hbinds, hid, hstart, hbelow⟩ := hone
    refine .bound hbinds (hid ▸ htakes) hstart (hid ▸ hlt.trans_le hle) ?_
    exact fun other hother => (hbelow other hother).trans_le hle

theorem lowerCallArgument_meets (param : ParamSig) (start : LocalId) :
    Meets (lowerCallArgument lowering arg param) start
      fun turn limit => turn.Within start limit := by
  unfold lowerCallArgument
  split
  · exact lowerStoredCallableCapture_meets lowering _ _ param start
  · refine .bind (lowerInternalAsyncStoredBorrowArgument_meets lowering arg param start)
      fun lowered limit hle hlowered => ?_
    cases lowered with
    | some turn => exact pure_meets fun _ hlater => (hlowered turn rfl).mono le_rfl hlater
    | none =>
      refine .after (effectivePassMode_advances lowering _ _) fun mode => ?_
      have hmono : ∀ (turn : LoweredArgument Code) later, limit ≤ later →
          turn.Within limit later → turn.Within start later :=
        fun _ _ _ hturn => hturn.mono hle le_rfl
      cases mode with
      | copy => exact (lowerValueCallArgument_meets lowering _ _ _ limit).mono hmono
      | move => exact (lowerValueCallArgument_meets lowering _ _ _ limit).mono hmono
      | borrow => exact (lowerBorrowCallArgument_meets lowering _ _ _ limit).mono hmono
      | mutBorrow => exact (lowerBorrowCallArgument_meets lowering _ _ _ limit).mono hmono

end Arguments

end Salicin.Codegen.Calls
