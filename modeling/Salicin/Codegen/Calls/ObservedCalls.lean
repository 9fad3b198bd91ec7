import Salicin.Codegen.Calls.PreparedCalls

/-!
# Observing a preparation

A call is prepared in the same way whatever is kept of its arguments, so the arguments that are
observed are those that the code lowers. A preparation that comes to nothing has complained.
-/

namespace Salicin.Codegen.Calls

open Salicin.Source (Expr CallArg)

variable {Rest Code Lowered Lowered' : Type}

/-! ## What is kept does not matter -/

section Map

variable (f : Lowered → Lowered')

theorem lowerGroupArguments_map {lowerOne : Nat → CallArg → ParamSig → Lower Rest Lowered}
    {lowerOne' : Nat → CallArg → ParamSig → Lower Rest Lowered'}
    (hone : ∀ i argument param, lowerOne' i argument param = f <$> lowerOne i argument param)
    (i : Nat) (pairs : List (CallArg × ParamSig)) :
    lowerGroupArguments lowerOne' i pairs =
      List.map f <$> lowerGroupArguments lowerOne i pairs := by
  induction pairs generalizing i with
  | nil => simp [lowerGroupArguments]
  | cons pair rest ih =>
    simp [lowerGroupArguments, hone, ih, bind_map_left]

theorem lowerArgumentGroups_map
    {lowerOne : Nat → Nat → CallArg → ParamSig → Lower Rest Lowered}
    {lowerOne' : Nat → Nat → CallArg → ParamSig → Lower Rest Lowered'}
    (hone : ∀ groupIndex i argument param, lowerOne' groupIndex i argument param =
      f <$> lowerOne groupIndex i argument param)
    (owner : String) (groupIndex : Nat) (groups : List (List CallArg × List ParamSig)) :
    lowerArgumentGroups owner lowerOne' groupIndex groups =
      Option.map (List.map f) <$> lowerArgumentGroups owner lowerOne groupIndex groups := by
  induction groups generalizing groupIndex with
  | nil => simp [lowerArgumentGroups]
  | cons group rest ih =>
    rw [lowerArgumentGroups, lowerArgumentGroups, map_bind]
    congr 1
    funext ordered
    cases ordered with
    | none => simp
    | some ordered =>
      simp only [lowerGroupArguments_map f (hone groupIndex), ih, bind_map_left, map_bind]
      congr 1
      funext lowered
      congr 1
      funext others
      cases others with
      | none => simp
      | some others => simp

theorem lowerIndirectGroups_map
    {lowerOne : ArgumentPosition → CallArg → ParamSig → Lower Rest Lowered}
    {lowerOne' : ArgumentPosition → CallArg → ParamSig → Lower Rest Lowered'}
    (hone : ∀ position argument param,
      lowerOne' position argument param = f <$> lowerOne position argument param)
    (localName : String) (groups : List (List CallArg × List Ty)) :
    lowerIndirectGroups localName lowerOne' groups =
      Option.map (List.map f) <$> lowerIndirectGroups localName lowerOne groups := by
  induction groups with
  | nil => simp [lowerIndirectGroups]
  | cons group rest ih =>
    rw [lowerIndirectGroups, lowerIndirectGroups]
    split
    · simp
    · simp only [lowerGroupArguments_map f fun _ => hone .plain, ih, bind_map_left, map_bind]
      congr 1
      funext lowered
      congr 1
      funext others
      cases others with
      | none => simp
      | some others => simp

variable {keeping : Keeping Rest Code Lowered} {keeping' : Keeping Rest Code Lowered'}

/-- The second keeps an image of what the first keeps. -/
structure Keeping.Maps (f : Lowered → Lowered') (keeping : Keeping Rest Code Lowered)
    (keeping' : Keeping Rest Code Lowered') : Prop where
  argument : ∀ position argument param, keeping'.argument position argument param =
      f <$> keeping.argument position argument param
  temporaryReceiver : ∀ source lowered,
    keeping'.temporaryReceiver source lowered = f (keeping.temporaryReceiver source lowered)

variable {f} (lowering : CallLowering Rest Code) (hmaps : keeping.Maps f keeping')

include hmaps

theorem prepareNamedCall_map (name : String) (groups : List (List CallArg)) :
    prepareNamedCall lowering keeping' name groups =
      Option.map (PreparedCall.map f) <$> prepareNamedCall lowering keeping name groups := by
  rw [prepareNamedCall, prepareNamedCall, map_bind]
  congr 1
  funext found
  cases found with
  | none => simp
  | some signature =>
    simp only
    split
    · simp
    · rw [lowerArgumentGroups_map f fun _ _ => hmaps.argument _, bind_map_left, map_bind]
      congr 1
      funext given
      cases given with
      | none => simp
      | some given => simp [PreparedCall.map]

theorem prepareClosureCall_map (localName : String) (local_ : LocalInfo) (closure : ClosureInfo)
    (groups : List (List CallArg)) :
    prepareClosureCall lowering keeping' localName local_ closure groups =
      Option.map (PreparedCall.map f) <$>
        prepareClosureCall lowering keeping localName local_ closure groups := by
  rw [prepareClosureCall, prepareClosureCall]
  split
  · simp
  · rw [lowerArgumentGroups_map f fun _ _ => hmaps.argument _, map_bind, bind_map_left]
    congr 1
    funext _
    rw [map_bind]
    congr 1
    funext given
    cases given with
    | none => simp
    | some given => simp [PreparedCall.map]

theorem preparePartialCall_map (localName : String) (local_ : LocalInfo) (info : PartialInfo)
    (groups : List (List CallArg)) :
    preparePartialCall lowering keeping' localName local_ info groups =
      Option.map (PreparedCall.map f) <$>
        preparePartialCall lowering keeping localName local_ info groups := by
  rw [preparePartialCall, preparePartialCall, map_bind]
  congr 1
  funext found
  cases found with
  | none => simp
  | some found =>
    obtain ⟨functionTy, captures, parameters⟩ := found
    simp only
    split
    · simp
    split
    · simp
    · rw [lowerArgumentGroups_map f fun _ _ => hmaps.argument _, map_bind, bind_map_left]
      congr 1
      funext _
      rw [map_bind]
      congr 1
      funext given
      cases given with
      | none => simp
      | some given => simp [PreparedCall.map]

theorem prepareIndirectCall_map (localName : String) (local_ : LocalInfo)
    (functionTy : FunctionTy) (groups : List (List CallArg)) :
    prepareIndirectCall lowering keeping' localName local_ functionTy groups =
      Option.map (PreparedCall.map f) <$>
        prepareIndirectCall lowering keeping localName local_ functionTy groups := by
  rw [prepareIndirectCall, prepareIndirectCall, map_bind]
  congr 1
  funext checked
  cases checked with
  | false => simp
  | true =>
    simp only [if_true]
    rw [lowerIndirectGroups_map f hmaps.argument, bind_map_left, map_bind]
    congr 1
    funext given
    cases given with
    | none => simp
    | some given => simp [PreparedCall.map]

theorem prepareTopLevelCall_map (complaint name : String) (groups : List (List CallArg)) :
    prepareTopLevelCall lowering keeping' complaint name groups =
      Option.map (PreparedCall.map f) <$>
        prepareTopLevelCall lowering keeping complaint name groups := by
  rw [prepareTopLevelCall, prepareTopLevelCall, map_bind]
  congr 1
  funext known
  cases known with
  | false => simp
  | true => exact prepareNamedCall_map lowering hmaps name groups

theorem prepareLocalCall_map (name : String) (groups : List (List CallArg)) :
    prepareLocalCall lowering keeping' name groups =
      Option.map (PreparedCall.map f) <$> prepareLocalCall lowering keeping name groups := by
  rw [prepareLocalCall, prepareLocalCall, map_bind]
  congr 1
  funext found
  cases found with
  | none => exact prepareTopLevelCall_map lowering hmaps _ name groups
  | some local_ =>
    simp only
    split
    · exact prepareClosureCall_map lowering hmaps _ _ _ _
    · exact preparePartialCall_map lowering hmaps _ _ _ _
    · exact prepareIndirectCall_map lowering hmaps _ _ _ _
    · exact prepareTopLevelCall_map lowering hmaps _ name groups

theorem lowerReceiver_map (subject : String) (receiver : Expr) (place : HirPlace)
    (binding : Option (HirBinding Code)) (param : ParamSig) :
    lowerReceiver lowering keeping' subject receiver place binding param =
      Option.map f <$> lowerReceiver lowering keeping subject receiver place binding param := by
  cases binding with
  | none => simp [lowerReceiver, hmaps.argument]
  | some binding =>
    rw [lowerReceiver, lowerReceiver, map_bind]
    congr 1
    funext lowered
    cases lowered with
    | none => simp
    | some lowered => simp [hmaps.temporaryReceiver]

theorem prepareResolvedMethod_map (receiver : Expr) (member : String) (place : HirPlace)
    (binding : Option (HirBinding Code)) (method : ResolvedMethod) :
    prepareResolvedMethod lowering keeping' receiver member place binding method =
      Option.map (PreparedCall.map f) <$>
        prepareResolvedMethod lowering keeping receiver member place binding method := by
  rw [prepareResolvedMethod, prepareResolvedMethod, map_bind]
  congr 1
  funext found
  cases found with
  | none => simp
  | some signature =>
    simp only
    split
    · split
      · simp
      · rw [lowerReceiver_map lowering hmaps, bind_map_left, map_bind]
        congr 1
        funext kept
        cases kept with
        | none => simp
        | some kept =>
          simp only [Option.map_some]
          rw [lowerArgumentGroups_map f fun _ _ => hmaps.argument _, bind_map_left, map_bind]
          congr 1
          funext given
          cases given with
          | none => simp
          | some given => simp [PreparedCall.map]
    · simp

theorem prepareCall_map (form : CallForm) (expected : Option Ty) :
    prepareCall lowering keeping' expected form =
      Option.map (PreparedCall.map f) <$> prepareCall lowering keeping expected form := by
  cases form with
  | named name groups => exact prepareNamedCall_map lowering hmaps name groups
  | local_ name groups => exact prepareLocalCall_map lowering hmaps name groups
  | method receiver member groups =>
    rw [prepareCall, prepareCall, prepareMethodCall, prepareMethodCall, map_bind]
    congr 1
    funext placed
    obtain ⟨place, binding⟩ := placed
    simp only [map_bind]
    congr 1
    funext found
    cases found with
    | none => simp
    | some method => exact prepareResolvedMethod_map lowering hmaps _ _ _ _ _

end Map

/-- The arguments that are observed are those that the code lowers. -/
theorem observing_maps (lowering : CallLowering Rest Code) :
    (observing lowering).Maps ArgumentTurn.lowered (keepLowered lowering) where
  argument _ _ _ := rfl
  temporaryReceiver _ _ := rfl

/-! ## What comes to nothing has complained -/

/-- Lowering that comes to nothing leaves a diagnostic. -/
def Reports {Result : Type} (run : Lower Rest (Option Result)) : Prop :=
  ∀ state, (run state).1 = none → (run state).2.diagnostics ≠ []

section Reports

variable {First Result : Type}

theorem report_ne_nil (msg : String) (state : State Rest) : (report msg state).2.diagnostics ≠ [] :=
  List.append_ne_nil_of_right_ne_nil _ (List.cons_ne_nil _ _)

theorem Reports.error (msg : String) :
    Reports (do
      report msg
      pure none : Lower Rest (Option Result)) :=
  fun state _ => report_ne_nil msg state

theorem Reports.found (res : Result) : Reports (pure (some res) : Lower Rest _) :=
  fun _ hnone => nomatch hnone

theorem Reports.after {first : Lower Rest First} {next : First → Lower Rest (Option Result)}
    (hnext : ∀ res, Reports (next res)) : Reports (first >>= next) :=
  fun _ => hnext _ _

theorem Reports.bind {first : Lower Rest (Option First)}
    {next : Option First → Lower Rest (Option Result)} (hfst : Reports first)
    (hnone : next none = pure none) (hsome : ∀ res, Reports (next (some res))) :
    Reports (first >>= next) := by
  intro state
  rw [bind_lower]
  cases hres : (first state).1 with
  | none =>
    rw [hnone]
    exact fun _ => hfst state hres
  | some res => exact hsome res _

theorem Reports.guard {check : Lower Rest Bool} {next : Lower Rest (Option Result)}
    (hcheck : ∀ state, (check state).1 = false → (check state).2.diagnostics ≠ [])
    (hnext : Reports next) :
    Reports (check >>= fun checked => if checked then next else pure none) := by
  intro state
  rw [bind_lower]
  cases hchecked : (check state).1 with
  | false => exact fun _ => hcheck state hchecked
  | true => exact hnext _

theorem Reports.ite {cond : Prop} [Decidable cond]
    {first second : Lower Rest (Option Result)} (hfst : Reports first)
    (hsnd : Reports second) : Reports (if cond then first else second) := by
  split
  · exact hfst
  · exact hsnd

end Reports

variable (lowering : CallLowering Rest Code) (keeping : Keeping Rest Code Lowered)

theorem orderedCallArguments_reports (owner : String) (groupNumber : Nat)
    (args : List CallArg) (parameterNames : List String) :
    Reports (orderedCallArguments owner groupNumber args parameterNames :
      Lower Rest (Option (List CallArg))) := by
  intro state hnone
  cases orderedCallArguments_eq owner groupNumber args parameterNames state with
  | inl hordered =>
    rw [hordered.2] at hnone
    exact nomatch hnone
  | inr hfailed =>
    obtain ⟨-, msg, hfailed⟩ := hfailed
    rw [hfailed]
    exact report_ne_nil msg state

theorem lowerArgumentGroups_reports (lowerOne : Nat → Nat → CallArg → ParamSig → Lower Rest Lowered)
    (owner : String) (groupIndex : Nat) (groups : List (List CallArg × List ParamSig)) :
    Reports (lowerArgumentGroups owner lowerOne groupIndex groups) := by
  induction groups generalizing groupIndex with
  | nil => exact .found _
  | cons group rest ih =>
    rw [lowerArgumentGroups]
    refine .bind (orderedCallArguments_reports _ _ _ _) rfl fun ordered => ?_
    exact .after fun _ => .bind (ih _) rfl fun _ => .found _

theorem lowerIndirectGroups_reports
    (lowerOne : ArgumentPosition → CallArg → ParamSig → Lower Rest Lowered) (localName : String)
    (groups : List (List CallArg × List Ty)) :
    Reports (lowerIndirectGroups localName lowerOne groups) := by
  induction groups with
  | nil => exact .found _
  | cons group rest ih =>
    rw [lowerIndirectGroups]
    exact .ite (.error _) (.after fun _ => .bind ih rfl fun _ => .found _)

theorem functionSignature_reports (name : String) : Reports (lowering.functionSignature name).run :=
  lowering.functionSignature_reports name

theorem prepareNamedCall_reports (name : String) (groups : List (List CallArg)) :
    Reports (prepareNamedCall lowering keeping name groups) := by
  refine .bind (functionSignature_reports lowering name) rfl fun signature => ?_
  simp only
  exact .ite (.error _) (.bind (lowerArgumentGroups_reports _ _ _ _) rfl fun _ => .found _)

variable (localName : String)

theorem prepareClosureCall_reports (local_ : LocalInfo)
    (closure : ClosureInfo) (groups : List (List CallArg)) :
    Reports (prepareClosureCall lowering keeping localName local_ closure groups) :=
  .ite (.error _) (.after fun _ =>
    .bind (lowerArgumentGroups_reports _ _ _ _) rfl fun _ => .found _)

theorem partialSignature_reports (local_ : LocalInfo) (info : PartialInfo) :
    Reports (partialSignature lowering localName local_ info) := by
  unfold partialSignature
  split
  · split
    · exact .error _
    · refine .after fun shape => ?_
      cases shape with
      | none => exact .error _
      | some parameters => exact .found _
  · exact .ite (.after fun _ => .found _) (.error _)
  · exact .error _

theorem preparePartialCall_reports (local_ : LocalInfo) (info : PartialInfo)
    (groups : List (List CallArg)) :
    Reports (preparePartialCall lowering keeping localName local_ info groups) := by
  refine .bind (partialSignature_reports lowering localName local_ info) rfl fun found => ?_
  simp only
  exact .ite (.error _) (.ite (.error _) (.after fun _ =>
    .bind (lowerArgumentGroups_reports _ _ _ _) rfl fun _ => .found _))

/-- An indirect call whose groups do not fit is complained about. -/
theorem checkIndirectCall_reports (functionTy : FunctionTy)
    (groups : List (List CallArg)) (state : State Rest)
    (hfailed : (checkIndirectCall lowering localName functionTy groups state).1 = false) :
    (checkIndirectCall lowering localName functionTy groups state).2.diagnostics ≠ [] := by
  unfold checkIndirectCall at hfailed ⊢
  split
  · exact report_ne_nil _ state
  next hlen =>
    rw [if_neg hlen] at hfailed
    split
    · exact report_ne_nil _ state
    next hlabels =>
      rw [if_neg hlabels] at hfailed
      exact nomatch hfailed

theorem prepareIndirectCall_reports (local_ : LocalInfo)
    (functionTy : FunctionTy) (groups : List (List CallArg)) :
    Reports (prepareIndirectCall lowering keeping localName local_ functionTy groups) :=
  .guard (checkIndirectCall_reports lowering localName functionTy groups)
    (.bind (lowerIndirectGroups_reports _ _ _) rfl fun _ => .found _)

theorem prepareTopLevelCall_reports (complaint name : String) (groups : List (List CallArg)) :
    Reports (prepareTopLevelCall lowering keeping complaint name groups) :=
  .after fun _ => .ite (prepareNamedCall_reports lowering keeping name groups) (.error _)

theorem prepareLocalCall_reports (name : String) (groups : List (List CallArg)) :
    Reports (prepareLocalCall lowering keeping name groups) := by
  refine .after fun found => ?_
  cases found with
  | none => exact prepareTopLevelCall_reports lowering keeping _ name groups
  | some local_ =>
    simp only
    split
    · exact prepareClosureCall_reports lowering keeping _ _ _ _
    · exact preparePartialCall_reports lowering keeping _ _ _ _
    · exact prepareIndirectCall_reports lowering keeping _ _ _ _
    · exact prepareTopLevelCall_reports lowering keeping _ name groups

theorem lowerTemporaryReceiver_reports (subject : String) (place : HirPlace)
    (binding : HirBinding Code) (param : ParamSig) :
    Reports (lowerTemporaryReceiver lowering subject place binding param) := by
  refine .after fun mode => ?_
  split
  · refine .after fun lowered => ?_
    cases lowered with
    | none => exact fun state _ => lowering.requireReceiverType_reports _ _ _ state
    | some lowered => exact .found _
  · refine .after fun _ => ?_
    rw [map_eq_pure_bind]
    exact .after fun turn => .found turn

theorem lowerReceiver_reports (subject : String) (receiver : Expr) (place : HirPlace)
    (binding : Option (HirBinding Code)) (param : ParamSig) :
    Reports (lowerReceiver lowering keeping subject receiver place binding param) := by
  cases binding with
  | none => exact .after fun kept => .found kept
  | some binding =>
    exact .bind (lowerTemporaryReceiver_reports lowering subject place binding param) rfl
      fun _ => .found _

theorem prepareResolvedMethod_reports (receiver : Expr) (member : String) (place : HirPlace)
    (binding : Option (HirBinding Code)) (method : ResolvedMethod) :
    Reports (prepareResolvedMethod lowering keeping receiver member place binding method) := by
  refine .bind (functionSignature_reports lowering _) rfl fun signature => ?_
  simp only
  split
  · refine .ite (.error _) (.bind (lowerReceiver_reports lowering keeping _ _ _ _ _) rfl
      fun kept => ?_)
    exact .bind (lowerArgumentGroups_reports _ _ _ _) rfl fun _ => .found _
  · exact .error _

theorem prepareCall_reports (form : CallForm) (expected : Option Ty) :
    Reports (prepareCall lowering keeping expected form) := by
  cases form with
  | named name groups => exact prepareNamedCall_reports lowering keeping name groups
  | local_ name groups => exact prepareLocalCall_reports lowering keeping name groups
  | method receiver member groups =>
    refine .after fun placed => ?_
    have hresolve : Reports
        (lowering.resolveMethod receiver placed.1 member groups expected).run :=
      lowering.resolveMethod_reports receiver placed.1 member groups expected
    exact .bind hresolve rfl fun method =>
      prepareResolvedMethod_reports lowering keeping receiver member placed.1 placed.2 method

end Salicin.Codegen.Calls
