import Salicin.Codegen.Calls.ArgumentTurns
import Salicin.Codegen.Calls.Rvalues

/-!
# The order of the arguments

The arguments of a call are lowered one after the other in the order of the source: labels have
to stand in the order of the parameters, and no group is lowered before the one in front of it.
-/

namespace Salicin.Codegen.Calls

open List

open Salicin.Source (Expr CallArg)

variable {Rest Code Lowered Lowered' : Type}

/-! ## The order of the arguments -/

/-- The labels name the parameters one after the other, from an index on. -/
def NamesFrom (parameterNames : List String) (start : Nat) (arguments : List CallArg) : Prop :=
  arguments.map (fun argument => parameterNames.findIdx? (· == argument.label.getD "")) =
    (range' start arguments.length).map some

/-- The labels of arguments that are placed stand in the order of the parameters. -/
theorem placeLabelled_eq (owner : String) (groupNumber : Nat) (parameterNames : List String)
    (state : State Rest) (rest placed : List CallArg)
    (hlen : placed.length + rest.length = parameterNames.length) :
    NamesFrom parameterNames placed.length rest ∧
      placeLabelled owner groupNumber parameterNames rest placed.length
          (placed.map some ++ List.replicate rest.length none) state =
        (some ((placed ++ rest).map some), state) ∨
    ¬ NamesFrom parameterNames placed.length rest ∧
      ∃ msg, placeLabelled owner groupNumber parameterNames rest placed.length
          (placed.map some ++ List.replicate rest.length none) state =
        (none, (report msg state).2) := by
  induction rest generalizing placed with
  | nil =>
    left
    rw [placeLabelled, length_nil, replicate_zero, append_nil, append_nil]
    exact ⟨rfl, rfl⟩
  | cons argument rest ih =>
    rw [placeLabelled, NamesFrom, map_cons, length_cons, range'_succ, map_cons, List.cons.injEq]
    cases hidx : parameterNames.findIdx? (· == argument.label.getD "") with
    | none => exact .inr ⟨fun hnames => Option.some_ne_none _ hnames.1.symm, _, rfl⟩
    | some i =>
      by_cases horder : i = placed.length
      · subst horder
        have hset : (placed.map some ++ List.replicate (rest.length + 1) none).set
            placed.length (some argument) =
            (placed ++ [argument]).map some ++ List.replicate rest.length none := by
          simp [replicate_succ]
        have hvacant : (placed.map some ++
            List.replicate (rest.length + 1) (none : Option CallArg)).getD
              placed.length none = none := by
          simp [replicate_succ]
        have hnext := ih (placed ++ [argument]) (by simp at hlen ⊢; omega)
        rw [length_append, length_singleton, append_assoc, singleton_append] at hnext
        simpa only [hset, hvacant, ne_eq, not_true_eq_false, if_false, Option.isSome_none,
          Bool.false_eq_true, true_and, NamesFrom] using hnext
      · simp only [ne_eq, horder, not_false_eq_true, if_true]
        exact .inr ⟨fun hnames => horder (Option.some.inj hnames.1), _, rfl⟩

/-- The group has an argument for each parameter, and the arguments have no labels or those of the
parameters in their order. -/
def InOrder (arguments : List CallArg) (parameterNames : List String) : Prop :=
  arguments.length = parameterNames.length ∧ ((∀ argument ∈ arguments, argument.label = none) ∨
    (∀ argument ∈ arguments, argument.label ≠ none) ∧ NamesFrom parameterNames 0 arguments)

/-- The arguments of a group are given in the order of the parameters. -/
theorem orderedCallArguments_eq (owner : String) (groupNumber : Nat) (arguments : List CallArg)
    (parameterNames : List String) (state : State Rest) :
    InOrder arguments parameterNames ∧
      orderedCallArguments owner groupNumber arguments parameterNames state =
        (some arguments, state) ∨
    ¬ InOrder arguments parameterNames ∧
      ∃ msg, orderedCallArguments owner groupNumber arguments parameterNames state =
        (none, (report msg state).2) := by
  rw [orderedCallArguments]
  split
  next hlen => exact .inr ⟨fun horder => hlen horder.1, _, rfl⟩
  next hlen =>
    rw [ne_eq, not_not] at hlen
    split
    next hnone => exact .inl ⟨⟨hlen, .inl (by simpa using hnone)⟩, rfl⟩
    next hlabelled =>
    split
    next hmixed =>
      refine .inr ⟨fun horder => ?_, _, rfl⟩
      rcases horder.2 with hnone | hlabels
      · exact hlabelled (by simpa using hnone)
      · obtain ⟨argument, hmem, hnone⟩ := any_eq_true.mp hmixed
        exact hlabels.1 argument hmem (Option.isNone_iff_eq_none.mp hnone)
    next hlabels =>
    have horder_iff : InOrder arguments parameterNames ↔ NamesFrom parameterNames 0 arguments := by
      rw [InOrder, and_iff_right hlen, or_iff_right (by simpa using hlabelled),
        and_iff_right (by simpa [Option.isSome_iff_ne_none] using hlabels)]
    rw [horder_iff]
    have hstart : (parameterNames.map fun _ => (none : Option CallArg)) =
        ([] : List CallArg).map some ++ List.replicate arguments.length none := by
      simp [hlen]
    have hplaced := placeLabelled_eq owner groupNumber parameterNames state arguments []
      (by simpa using hlen)
    rw [hstart]
    rw [length_nil] at hplaced
    rcases hplaced with ⟨horder, hplaced⟩ | ⟨horder, msg, hfailed⟩
    · refine .inl ⟨horder, ?_⟩
      rw [bind_lower, hplaced, nil_append]
      have hnone : (arguments.map some).findIdx? Option.isNone = none := by
        simp [findIdx?_eq_none_iff]
      simp only [hnone, filterMap_map, pure_lower]
      simp
    · refine .inr ⟨horder, msg, ?_⟩
      rw [bind_lower, hfailed]
      rfl

/-! ## Arguments as they are observed -/

/-- A lowered argument with its source; it is recorded whether it was a borrowed rvalue at its
turn. -/
structure ArgumentTurn (Code : Type) where
  source : CallArg
  borrowsRvalue : Bool
  lowered : LoweredArgument Code

/-- What is kept of the arguments to observe them. -/
def observing (lowering : CallLowering Rest Code) : Keeping Rest Code (ArgumentTurn Code) where
  argument position argument parameter := fun state =>
    let lowered := lowerArgument lowering position argument parameter state
    ({ source := argument
       borrowsRvalue := (borrowsRvalueAt lowering position argument parameter state).1
       lowered := lowered.1 }, lowered.2)
  temporaryReceiver source lowered := { source, borrowsRvalue := true, lowered }

/-- The argument was lowered from the source, and it has a temporary exactly when it was a
borrowed rvalue. -/
structure ArgumentTurn.Observed (start : LocalId) (source : CallArg) (turn : ArgumentTurn Code)
    (limit : LocalId) : Prop where
  source_eq : turn.source = source
  within : turn.lowered.Within start limit
  rvalue_iff : turn.borrowsRvalue = false ↔ turn.lowered.bindings = []

/-- Arguments that were lowered one after the other, each from its source. -/
inductive ObservedInOrder :
    LocalId → List CallArg → List (ArgumentTurn Code) → LocalId → Prop
  | nil {start limit : LocalId} (hle : start ≤ limit) : ObservedInOrder start [] [] limit
  | cons {start middle limit : LocalId} {source : CallArg} {turn : ArgumentTurn Code}
      {others : List CallArg} {rest : List (ArgumentTurn Code)} (hle : start ≤ middle)
      (hturn : turn.Observed start source middle)
      (hrest : ObservedInOrder middle others rest limit) :
      ObservedInOrder start (source :: others) (turn :: rest) limit

namespace ObservedInOrder

variable {start middle limit : LocalId} {srcs others : List CallArg}
  {turns rest : List (ArgumentTurn Code)}

theorem from_le {start' : LocalId} (hturns : ObservedInOrder start srcs turns limit)
    (hle : start' ≤ start) : ObservedInOrder start' srcs turns limit := by
  cases hturns with
  | nil hstart => exact .nil (hle.trans hstart)
  | cons hstart hturn hrest =>
    exact .cons (hle.trans hstart) { hturn with within := hturn.within.mono hle le_rfl } hrest

theorem to_le {limit' : LocalId} (hturns : ObservedInOrder start srcs turns limit)
    (hle : limit ≤ limit') : ObservedInOrder start srcs turns limit' := by
  induction hturns with
  | nil hstart => exact .nil (hstart.trans hle)
  | cons hstart hturn _ ih => exact .cons hstart hturn (ih hle)

theorem append (hturns : ObservedInOrder start srcs turns middle)
    (hrest : ObservedInOrder middle others rest limit) :
    ObservedInOrder start (srcs ++ others) (turns ++ rest) limit := by
  induction hturns with
  | nil hle => exact hrest.from_le hle
  | cons hle hturn _ ih => exact .cons hle hturn (ih hrest)

theorem sources_eq (hturns : ObservedInOrder start srcs turns limit) :
    turns.map ArgumentTurn.source = srcs := by
  induction hturns with
  | nil hle => rfl
  | cons hle hturn hrest ih => rw [map_cons, ih, hturn.source_eq]

theorem loweredInOrder (hturns : ObservedInOrder start srcs turns limit) :
    LoweredInOrder start (turns.map ArgumentTurn.lowered) limit := by
  induction hturns with
  | nil hle => exact .nil hle
  | cons hle hturn hrest ih => exact .cons hle hturn.within ih

/-- There is a temporary exactly when an argument was a borrowed rvalue. -/
theorem temporaries_eq_nil (hturns : ObservedInOrder start srcs turns limit) :
    temporaries (turns.map ArgumentTurn.lowered) = [] ↔
      ∀ turn ∈ turns, turn.borrowsRvalue = false := by
  induction hturns with
  | nil hle => simp [temporaries]
  | cons hle hturn hrest ih =>
    rw [map_cons, temporaries_cons, append_eq_nil_iff, ih, forall_mem_cons, hturn.rvalue_iff]

end ObservedInOrder

/-! ## The groups of arguments -/

variable (lowering : CallLowering Rest Code)

theorem lowerHandlerAction_meets (action : RuntimeHandlerAction)
    (argument : CallArg) (param : ParamSig) (start : LocalId) :
    Meets (lowerHandlerAction lowering action argument param) start
      fun turn limit => turn.Within start limit := by
  refine .after ?_ fun known => .ite (.after (report_advances _) fun _ => ?_) ?_
  · unfold namedLocal
    split
    · refine .bind (Step.advances _) fun found => ?_
      cases found with
      | none => exact pure_advances _
      | some local_ => exact pure_advances _
    · exact pure_advances _
  · exact pure_meets fun limit _ => LoweredArgument.within_error start limit
  · split
    · refine .bind (Step.meets _ start) fun place limit _ hplace => ?_
      refine .bind (movePlace_meets lowering.toArgumentLowering place limit)
        fun val middle hle hreads => pure_meets fun later hlater => ?_
      exact .plain rfl fun id hid =>
        hreads.below ((hplace place.localId rfl).trans_le (hle.trans hlater)) id hid
    · refine .bind (Step.meets _ start) fun erased limit _ hbelow => ?_
      refine .after (Step.advances _) fun _ => pure_meets fun later hle => ?_
      exact .plain rfl fun id hid => (hbelow id hid).trans_le hle

theorem lowerArgument_meets (pos : ArgumentPosition)
    (argument : CallArg) (param : ParamSig) (start : LocalId) :
    Meets (lowerArgument lowering pos argument param) start
      fun turn limit => turn.Within start limit := by
  cases pos with
  | plain => exact lowerCallArgument_meets lowering.toArgumentLowering _ param start
  | named fn groupIndex parameterIndex =>
    refine .after (Step.advances _) fun action => ?_
    cases action with
    | some action => exact lowerHandlerAction_meets lowering action argument param start
    | none => exact lowerCallArgument_meets lowering.toArgumentLowering _ param start

theorem observing_meets (pos : ArgumentPosition)
    (argument : CallArg) (param : ParamSig) (start : LocalId) :
    Meets ((observing lowering).argument pos argument param) start
      fun turn limit => turn.Observed start argument limit := by
  intro state hstart
  obtain ⟨hgrows, hwithin⟩ := lowerArgument_meets lowering pos argument param start state hstart
  exact ⟨hgrows, rfl, hwithin, lowerArgument_observes lowering pos argument param state⟩

theorem lowerGroupArguments_meets
    {lowerOne : Nat → CallArg → ParamSig → Lower Rest (ArgumentTurn Code)}
    (hone : ∀ i argument param start, Meets (lowerOne i argument param) start
      fun turn limit => turn.Observed start argument limit)
    (pairs : List (CallArg × ParamSig)) (i : Nat) (start : LocalId) :
    Meets (lowerGroupArguments lowerOne i pairs) start
      fun turns limit => ObservedInOrder start (pairs.map Prod.fst) turns limit := by
  induction pairs generalizing i start with
  | nil => exact pure_meets fun _ hle => .nil hle
  | cons pair rest ih =>
    obtain ⟨argument, param⟩ := pair
    refine .bind (hone i argument param start) fun turn middle hle hturn => ?_
    refine .bind (ih (i + 1) middle) fun turns limit _ hturns => ?_
    exact pure_meets fun later hlater => .cons hle hturn (hturns.to_le hlater)

theorem orderedCallArguments_meets (owner : String) (groupNumber : Nat)
    (arguments : List CallArg) (parameterNames : List String) (start : LocalId) :
    Meets (orderedCallArguments owner groupNumber arguments parameterNames :
        Lower Rest (Option (List CallArg))) start
      fun ordered _ => ∀ given, ordered = some given →
        given = arguments ∧ arguments.length = parameterNames.length := by
  intro state hstart
  cases orderedCallArguments_eq owner groupNumber arguments parameterNames state with
  | inl hordered =>
    rw [hordered.2]
    exact ⟨State.Grows.refl state, fun given hgiven =>
      ⟨(Option.some.inj hgiven).symm, hordered.1.1⟩⟩
  | inr hfailed =>
    obtain ⟨-, msg, hfailed⟩ := hfailed
    rw [hfailed]
    exact ⟨report_advances msg state, fun given hgiven => nomatch hgiven⟩

/-- What is kept of arguments that were lowered, if they were. -/
def LoweredFrom (start : LocalId) (srcs : List CallArg)
    (given : Option (List (ArgumentTurn Code))) (limit : LocalId) : Prop :=
  ∀ turns, given = some turns → ObservedInOrder start srcs turns limit

theorem loweredFrom_none {start limit : LocalId} {srcs : List CallArg} :
    LoweredFrom start srcs (none : Option (List (ArgumentTurn Code))) limit :=
  fun _ hturns => nomatch hturns

theorem zip_map_fst {Second : Type} {arguments : List CallArg} {parameters : List Second}
    (hlen : arguments.length = parameters.length) :
    (arguments.zip parameters).map Prod.fst = arguments :=
  map_fst_zip hlen.le

theorem lowerArgumentGroups_meets
    {lowerOne : Nat → Nat → CallArg → ParamSig → Lower Rest (ArgumentTurn Code)}
    (hone : ∀ groupIndex i argument param start, Meets (lowerOne groupIndex i argument param) start
        fun turn limit => turn.Observed start argument limit)
    (owner : String) (groups : List (List CallArg × List ParamSig)) (groupIndex : Nat)
    (start : LocalId) :
    Meets (lowerArgumentGroups owner lowerOne groupIndex groups) start
      (LoweredFrom start (groups.flatMap Prod.fst)) := by
  induction groups generalizing groupIndex start with
  | nil =>
    exact pure_meets fun _ hle turns hturns => Option.some.inj hturns ▸ .nil hle
  | cons group rest ih =>
    obtain ⟨arguments, parameters⟩ := group
    rw [lowerArgumentGroups]
    refine .bind (orderedCallArguments_meets owner _ arguments _ start)
      fun ordered limit hle hordered => ?_
    cases ordered with
    | none => exact pure_meets fun _ _ => loweredFrom_none
    | some ordered =>
      obtain ⟨rfl, hlen⟩ := hordered ordered rfl
      rw [length_map] at hlen
      refine .bind (lowerGroupArguments_meets (hone groupIndex) (ordered.zip parameters) 0
        limit) fun lowered middle _ hlowered => ?_
      rw [zip_map_fst hlen] at hlowered
      refine .bind (ih (groupIndex + 1) middle) fun others later _ hothers => ?_
      cases others with
      | none => exact pure_meets fun _ _ => loweredFrom_none
      | some others =>
        refine pure_meets fun last hlast turns hturns => ?_
        cases hturns
        exact (hlowered.from_le hle).append ((hothers others rfl).to_le hlast)

theorem lowerIndirectGroups_meets
    {lowerOne : ArgumentPosition → CallArg → ParamSig → Lower Rest (ArgumentTurn Code)}
    (hone : ∀ pos argument param start, Meets (lowerOne pos argument param) start
      fun turn limit => turn.Observed start argument limit)
    (localName : String) (groups : List (List CallArg × List Ty)) (start : LocalId) :
    Meets (lowerIndirectGroups localName lowerOne groups) start
      (LoweredFrom start (groups.flatMap Prod.fst)) := by
  induction groups generalizing start with
  | nil =>
    exact pure_meets fun _ hle turns hturns => Option.some.inj hturns ▸ .nil hle
  | cons group rest ih =>
    obtain ⟨arguments, parameters⟩ := group
    rw [lowerIndirectGroups]
    split
    · exact .after (report_advances _) fun _ => pure_meets fun _ _ => loweredFrom_none
    next hlen =>
      have hlen : arguments.length = (parameters.map unnamedParameter).length := by
        rw [length_map]
        exact not_not.mp hlen
      refine .bind (lowerGroupArguments_meets (fun _ => hone .plain)
        (arguments.zip (parameters.map unnamedParameter)) 0 start)
        fun lowered middle _ hlowered => ?_
      rw [zip_map_fst hlen] at hlowered
      refine .bind (ih middle) fun others later _ hothers => ?_
      cases others with
      | none => exact pure_meets fun _ _ => loweredFrom_none
      | some others =>
        refine pure_meets fun last hlast turns hturns => ?_
        cases hturns
        exact hlowered.append ((hothers others rfl).to_le hlast)

end Salicin.Codegen.Calls
